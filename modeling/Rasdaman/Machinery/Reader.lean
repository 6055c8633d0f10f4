import Mathlib.Data.List.Basic
import Mathlib.Data.List.TakeWhile
import Mathlib.Data.Nat.Notation
import Rasdaman.Machinery.Memory

/-!
# Machinery/Reader — what one program writes and another one reads

A reader takes bytes from the front of an input, or fails.  `Reads` says that it reads a value off some
bytes whatever comes after them, and `ReadsIff` when a value is read as it was meant; both compose along the
sequence of what was written.
-/

namespace Reading

variable {ε α β γ : Type}

/-- A reader of bytes. -/
abbrev Reader (ε α : Type) := StateT (List UInt8) (Except ε) α

/-- The reader reads a value off some bytes, and leaves what comes after them. -/
def Reads (r : Reader ε α) (bs : List UInt8) (a : α) : Prop := ∀ rest, r.run (bs ++ rest) = .ok (a, rest)

/-- Some number of bytes. -/
def bytes (e : ε) (n : ℕ) : Reader ε (List UInt8) := fun bs =>
  if n ≤ bs.length then .ok (bs.take n, bs.drop n) else .error e

/-- The bytes before a zero, and the zero. -/
def cstring (e : ε) : Reader ε (List UInt8) := fun bs =>
  match bs.dropWhile (· ≠ 0) with
  | [] => .error e
  | _ :: rest => .ok (bs.takeWhile (· ≠ 0), rest)

/-- Values up to the end of the input, at most `fuel` of them. -/
def toEnd (e : ε) (r : Reader ε α) : ℕ → List UInt8 → Except ε (List α)
  | _, [] => .ok []
  | 0, _ :: _ => .error e
  | fuel + 1, b :: bs => do
    let (a, rest) ← r.run (b :: bs)
    let as ← toEnd e r fuel rest
    pure (a :: as)

variable {r : Reader ε α} {f : α → Reader ε β} {bs cs : List UInt8} {a : α} {b : β} {e : ε}

theorem Reads.pure (a : α) : Reads (pure a : Reader ε α) [] a := fun _ => rfl

/-- **What is read one after the other was written one after the other.** -/
theorem Reads.bind (hr : Reads r bs a) (hf : Reads (f a) cs b) : Reads (r >>= f) (bs ++ cs) b := by
  intro rest
  rw [StateT.run_bind, List.append_assoc, hr]
  exact hf rest

/-- The last part of a sequence. -/
theorem Reads.done (hr : Reads r bs a) (hf : Reads (f a) [] b) : Reads (r >>= f) bs b := by
  have h := hr.bind hf
  rwa [List.append_nil] at h

theorem Reads.map (hr : Reads r bs a) (g : α → β) : Reads (g <$> r) bs (g a) := by
  intro rest
  rw [StateT.run_map, hr]
  rfl

theorem reads_bytes (e : ε) (bs : List UInt8) : Reads (bytes e bs.length) bs bs := by
  intro rest
  change bytes e bs.length (bs ++ rest) = _
  rw [bytes, if_pos (by simp), List.take_left, List.drop_left]

theorem reads_bytes_of_length (e : ε) {n : ℕ} (h : bs.length = n) : Reads (bytes e n) bs bs :=
  h ▸ reads_bytes e bs

theorem reads_cstring (e : ε) (h : 0 ∉ bs) : Reads (cstring e) (bs ++ [0]) bs := by
  intro rest
  have hne : ∀ b ∈ bs, decide (b ≠ 0) = true := fun b hb => decide_eq_true fun hz => h (hz ▸ hb)
  change cstring e (bs ++ [0] ++ rest) = _
  rw [cstring, List.append_assoc, List.dropWhile_append_of_pos hne, List.takeWhile_append_of_pos hne]
  simp

theorem cstring_ok {rest : List UInt8} (h : (cstring e).run bs = .ok (cs, rest)) : 0 ∉ cs := by
  change cstring e bs = _ at h
  rw [cstring] at h
  split at h
  · cases h
  · cases h
    exact fun h0 => by simpa using List.mem_takeWhile_imp h0

/-! ## What is meant to be read -/

/-- One value after another, which may depend on it. -/
def both (r : Reader ε α) (f : α → Reader ε β) : Reader ε (α × β) := do
  let a ← r
  let b ← f a
  pure (a, b)

/-- Some bytes are read as `Q` says if and only if `P`, and then all of them and no more. -/
structure ReadsIff (r : Reader ε α) (bs : List UInt8) (Q : α → Prop) (P : Prop) : Prop where
  reads : P → ∃ a, Reads r bs a ∧ Q a
  only : ∀ {rest a rest'}, r.run (bs ++ rest) = .ok (a, rest') → Q a → P

variable {Q Q' : α → Prop} {R : α → β → Prop} {P P' : Prop}

theorem bind_ok_iff {x : Reader ε α} {b : β} {rest : List UInt8} :
    (x >>= f).run bs = .ok (b, rest) ↔ ∃ a mid, x.run bs = .ok (a, mid) ∧ (f a).run mid = .ok (b, rest) := by
  rw [StateT.run_bind]
  cases h : x.run bs with
  | error e => exact ⟨nofun, fun ⟨_, _, h', _⟩ => nomatch h'⟩
  | ok p =>
    refine ⟨fun h' => ⟨p.1, p.2, rfl, h'⟩, ?_⟩
    rintro ⟨a, mid, heq, hrun⟩
    cases heq
    exact hrun

theorem map_ok_iff {g : α → β} {rest : List UInt8} :
    (g <$> r).run bs = .ok (b, rest) ↔ ∃ a, r.run bs = .ok (a, rest) ∧ g a = b := by
  rw [StateT.run_map]
  cases h : r.run bs with
  | error e => exact ⟨nofun, fun ⟨_, h', _⟩ => nomatch h'⟩
  | ok p =>
    constructor
    · intro h'
      cases h'
      exact ⟨p.1, rfl, rfl⟩
    · rintro ⟨a, heq, rfl⟩
      cases heq
      rfl

theorem Reads.both {g : α → Reader ε β} (hr : Reads r bs a) (hg : Reads (g a) cs b) :
    Reads (both r g) (bs ++ cs) (a, b) :=
  hr.bind (hg.done (.pure (a, b)))

theorem ReadsIff.congr (h : ReadsIff r bs Q P) (hQ : ∀ a, Q a ↔ Q' a) (hP : P ↔ P') : ReadsIff r bs Q' P' where
  reads hp := (h.reads (hP.mpr hp)).imp fun a => And.imp_right (hQ a).mp
  only hrun hq := hP.mp (h.only hrun ((hQ _).mpr hq))

/-- **What is meant is read part by part.** -/
theorem ReadsIff.both (hr : ReadsIff r bs Q P) (hf : ∀ a, Q a → ReadsIff (f a) cs (R a) P') :
    ReadsIff (both r f) (bs ++ cs) (fun p => Q p.1 ∧ R p.1 p.2) (P ∧ P') where
  reads := by
    rintro ⟨hp, hp'⟩
    obtain ⟨a, hread, ha⟩ := hr.reads hp
    obtain ⟨b, hread', hb⟩ := (hf a ha).reads hp'
    exact ⟨(a, b), hread.both hread', ha, hb⟩
  only := by
    intro rest p rest' hrun hp
    rw [List.append_assoc] at hrun
    obtain ⟨a, mid, hfirst, hrun⟩ := bind_ok_iff.mp hrun
    obtain ⟨b, mid', hsecond, hrun⟩ := bind_ok_iff.mp hrun
    cases hrun
    -- the first part was read as meant, so the second one is read where it was written
    have hP := hr.only hfirst hp.1
    obtain ⟨a', hread, -⟩ := hr.reads hP
    rw [hread] at hfirst
    cases hfirst
    exact ⟨hP, (hf a hp.1).only hsecond hp.2⟩

theorem ReadsIff.map {g : α → β} {S : β → Prop} (h : ReadsIff r bs Q P) (hS : ∀ a, Q a ↔ S (g a)) :
    ReadsIff (g <$> r) bs S P where
  reads hp := by
    obtain ⟨a, hread, ha⟩ := h.reads hp
    exact ⟨g a, hread.map g, (hS a).mp ha⟩
  only hrun hs := by
    obtain ⟨a, hread, rfl⟩ := map_ok_iff.mp hrun
    exact h.only hread ((hS a).mpr hs)

theorem readsIff_bytes {n : ℕ} (e : ε) (h : bs.length = n) : ReadsIff (bytes e n) bs (· = bs) True where
  reads _ := ⟨bs, reads_bytes_of_length e h, rfl⟩
  only _ _ := trivial

/-- **All values up to the end as they were meant.** -/
theorem ReadsIff.toEnd {enc : γ → List UInt8} {V : γ → α → Prop} {A : γ → Prop} {xs : List γ} {fuel : ℕ}
    (h : ∀ x ∈ xs, ReadsIff r (enc x) (V x) (A x) ∧ enc x ≠ []) (hfuel : (xs.flatMap enc).length ≤ fuel) :
    (∃ as, Reading.toEnd e r fuel (xs.flatMap enc) = .ok as ∧ List.Forall₂ V xs as) ↔ ∀ x ∈ xs, A x := by
  induction xs generalizing fuel with
  | nil => exact ⟨fun _ _ => nofun, fun _ => ⟨[], by cases fuel <;> rfl, .nil⟩⟩
  | cons x xs ih =>
    obtain ⟨⟨hx, hne⟩, hxs⟩ := List.forall_mem_cons.mp h
    obtain ⟨b, bs, hb⟩ := List.exists_cons_of_ne_nil hne
    have hlength := hfuel
    rw [List.flatMap_cons, List.length_append, hb, List.length_cons] at hlength
    obtain ⟨fuel, rfl⟩ := Nat.exists_eq_add_of_le' (show 1 ≤ fuel by omega)
    have ih : (∃ as, Reading.toEnd e r fuel (xs.flatMap enc) = .ok as ∧ List.Forall₂ V xs as) ↔ ∀ x ∈ xs, A x :=
      ih hxs (by omega)
    have hstep : Reading.toEnd e r (fuel + 1) ((x :: xs).flatMap enc) = (do
        let (a, rest) ← r.run (enc x ++ xs.flatMap enc)
        let as ← Reading.toEnd e r fuel rest
        pure (a :: as)) := by
      rw [List.flatMap_cons, hb]
      rfl
    rw [hstep, List.forall_mem_cons, ← ih]
    constructor
    · rintro ⟨as, hrun, hall⟩
      cases hfirst : r.run (enc x ++ xs.flatMap enc) with
      | error => rw [hfirst] at hrun; cases hrun
      | ok p =>
        obtain ⟨a, rest⟩ := p
        rw [hfirst] at hrun
        change (Reading.toEnd e r fuel rest >>= fun as => pure (a :: as)) = _ at hrun
        cases hrest : Reading.toEnd e r fuel rest with
        | error => rw [hrest] at hrun; cases hrun
        | ok as' =>
          rw [hrest] at hrun
          cases hrun
          obtain ⟨ha, has⟩ := List.forall₂_cons.mp hall
          have hA := hx.only hfirst ha
          obtain ⟨a', hread, -⟩ := hx.reads hA
          rw [hread] at hfirst
          cases hfirst
          exact ⟨hA, as', hrest, has⟩
    · rintro ⟨hA, as, hrest, has⟩
      obtain ⟨a, hread, ha⟩ := hx.reads hA
      refine ⟨a :: as, ?_, .cons ha has⟩
      rw [hread]
      exact congrArg (· >>= fun as => pure (a :: as)) hrest

end Reading

/-!
## Filling a buffer from the front

An emitter writes at a position and goes on behind what it wrote.  `Emits` says what it leaves in a buffer
that is long enough; it composes along the sequence of the writes, and `Emits.fills` is the whole buffer.
-/

namespace Memory

variable {α : Type}

/-- A program that writes at its position. -/
abbrev Emitter := StateT ℤ Access Unit

def emit (bs : List UInt8) : Emitter := fun pos => do
  put pos bs
  pure ((), pos + bs.length)

/-- An emitter for each of some values. -/
def emitAll (w : α → Emitter) : List α → Emitter
  | [] => pure ()
  | a :: as => do
    w a
    emitAll w as

/-- The bytes that are written, over whatever was there. -/
def Emits (w : Emitter) (bs : Region) : Prop := ∀ pre old post : Region, old.length = bs.length →
  w pre.length (pre ++ (old ++ post)) = .ok (((), (pre.length : ℤ) + bs.length), pre ++ (bs ++ post))

variable {w w' : Emitter} {bs bs' mem : Region}

theorem emits_emit (bs : Region) : Emits (emit bs) bs := by
  intro pre old post hlength
  exact bind_ok (put_mid rfl hlength.symm)

theorem Emits.pure : Emits (pure ()) [] := by
  intro pre old post hlength
  obtain rfl := List.length_eq_zero_iff.mp hlength
  exact congrArg Except.ok (Prod.ext (Prod.ext rfl (Int.add_zero _).symm) rfl)

/-- **One emitter after another.** -/
theorem Emits.andThen (h : Emits w bs) (h' : Emits w' bs') : Emits (do w; w') (bs ++ bs') := by
  intro pre old post hlength
  rw [List.length_append] at hlength
  obtain ⟨place, rest, rfl, hplace⟩ := exists_split old bs.length (by omega)
  rw [List.length_append] at hlength
  have hfirst := h pre place (rest ++ post) hplace
  have hsecond := h' (pre ++ bs) rest post (by omega)
  rw [List.append_assoc]
  change (w pre.length >>= fun p : Unit × ℤ => w' p.2) (pre ++ (place ++ (rest ++ post))) = _
  rw [bind_ok hfirst]
  rw [List.length_append, Nat.cast_add, List.append_assoc, List.append_assoc] at hsecond
  refine hsecond.trans ?_
  rw [List.length_append, Nat.cast_add, Int.add_assoc, List.append_assoc]

theorem Emits.all {w : α → Emitter} {enc : α → Region} {as : List α} (h : ∀ a ∈ as, Emits (w a) (enc a)) :
    Emits (emitAll w as) (as.flatMap enc) := by
  induction as with
  | nil => exact .pure
  | cons a as ih =>
    obtain ⟨ha, has⟩ := List.forall_mem_cons.mp h
    exact ha.andThen (ih has)

/-- **A buffer of the right length is filled**, whatever was in it. -/
theorem Emits.fills (h : Emits w bs) (hlength : mem.length = bs.length) :
    w 0 mem = .ok (((), (bs.length : ℤ)), bs) := by
  have hrun := h [] mem [] hlength
  rwa [List.append_nil, List.append_nil, List.nil_append, List.nil_append, List.length_nil, Nat.cast_zero,
    Int.zero_add] at hrun

/-- The emitter writes these bytes where there is room for them, and writes outside where there is not. -/
structure Writes (w : Emitter) (bs : Region) : Prop where
  emits : Emits w bs
  overruns : ∀ pre old : Region, old.length < bs.length →
    w pre.length (pre ++ old) = .error .outside

theorem writes_emit (bs : Region) : Writes (emit bs) bs where
  emits := emits_emit bs
  overruns pre old hlength := by
    have hout : ¬Inside (pre ++ old) pre.length bs.length := by
      rw [Inside, List.length_append, Nat.cast_add]
      omega
    have hput : put pre.length bs (pre ++ old) = .error .outside := if_neg hout
    exact bind_error hput

theorem Writes.pure : Writes (pure ()) [] := ⟨.pure, fun _ _ h => absurd h (Nat.not_lt_zero _)⟩

theorem Writes.andThen (h : Writes w bs) (h' : Writes w' bs') :
    Writes (do w; w') (bs ++ bs') where
  emits := h.emits.andThen h'.emits
  overruns pre old hlength := by
    change (w pre.length >>= fun p : Unit × ℤ => w' p.2) (pre ++ old) = _
    rw [List.length_append] at hlength
    rcases lt_or_ge old.length bs.length with hshort | hlong
    · exact bind_error (h.overruns pre old hshort)
    · obtain ⟨place, rest, rfl, hplace⟩ := exists_split old bs.length hlong
      rw [List.length_append] at hlength
      have hsecond := h'.overruns (pre ++ bs) rest (by omega)
      rw [bind_ok (h.emits pre place rest hplace)]
      rw [List.length_append, Nat.cast_add, List.append_assoc] at hsecond
      exact hsecond

theorem Writes.all {w : α → Emitter} {enc : α → Region} {as : List α}
    (h : ∀ a ∈ as, Writes (w a) (enc a)) : Writes (emitAll w as) (as.flatMap enc) := by
  induction as with
  | nil => exact .pure
  | cons a as ih =>
    obtain ⟨ha, has⟩ := List.forall_mem_cons.mp h
    exact ha.andThen (ih has)

/-- **A buffer that is too short is overrun.** -/
theorem Writes.overrun (h : Writes w bs) (hlength : mem.length < bs.length) :
    w 0 mem = .error .outside := h.overruns [] mem hlength

end Memory
