import Rasdaman.Conversion.CsvReading

/-!
# Conversion/CsvSpelling — the values that are read from their own digits

The decoder reads numbers as they were written.  Where it extracts a character, it takes the first character
of a number for the value and goes on with the rest of that number, so that it lags behind the writer from
there on.  `reads_iff` says which values it gets right then: those that their own digits spell.
-/

namespace Rasdaman

open Bytes Tokens

namespace Csv

variable {o : Order} {v : ℤ} {vs : List ℤ} {ks : List Field} {k : Field} {text : List Char}
  {ts : List (List Char)} {q : List ℕ}

/-! ## The values that are spelled -/

/-- The values that are read while the decoder lags behind by the numbers `q`: from a number it takes the
first digit as a character or all of the number, and puts the value it has read behind the others. -/
def spelled : List Target → (q : List ℕ) → List ℤ
  | [], _ => []
  | _, [] => []
  | .character :: ks, n :: q =>
    if n < 10 then (48 + n : ℕ) :: spelled ks (q ++ [48 + n])
    else (48 + n / 10 : ℕ) :: spelled ks (n % 10 :: q ++ [48 + n / 10])
  | _ :: ks, n :: q => n :: spelled ks (q ++ [n])

/-- The values are free up to the first that is extracted as a character.  That one is 53, the only number
that starts with its own character, and leaves a 3, from which all others follow. -/
def SpellsItself : List Target → List ℤ → Prop
  | .character :: ks, v :: vs => v = 53 ∧ vs = spelled ks [3]
  | _ :: ks, _ :: vs => SpellsItself ks vs
  | _, _ => True

/-! ## One value -/

/-- A number is read as it was written, and the rest of the text spells the others. -/
theorem addElem_number (ht : k.target ≠ .character) (hv : k.target.bounds.1 ≤ v ∧ v ≤ k.target.bounds.2)
    (h : Spells isValidCharacter (Decimal.text v :: ts) text) :
    ∃ rest, addElem o k.target k.typeId ⟨text, false⟩ = .ok (k.typeId.put o v, ⟨rest, false⟩) ∧
      Spells isValidCharacter ts rest := by
  obtain ⟨rest, hdrop, htoken, hends, hrest⟩ := h.dropWhile
  refine ⟨rest, ?_, hrest⟩
  have hskip : (IStream.mk text false).skip = ⟨Decimal.text v ++ rest, false⟩ := by
    rw [IStream.skip, hdrop]
  rw [addElem, hskip, if_neg, extract_text ht hv hends]
  simp [Decimal.text_ne_nil]

/-- A character is taken from the first number; what is left of that number comes first then. -/
theorem addElem_char {c : Char} {cs : List Char} (ht : k.target = .character)
    (h : Spells isValidCharacter ((c :: cs) :: ts) text) :
    ∃ rest, addElem o k.target k.typeId ⟨text, false⟩ =
        .ok (k.typeId.put o c.toNat, ⟨rest, false⟩) ∧
      Spells isValidCharacter (if cs = [] then ts else cs :: ts) rest := by
  obtain ⟨rest, hdrop, htoken, hends, hrest⟩ := h.dropWhile
  refine ⟨cs ++ rest, ?_, hrest.tail htoken hends⟩
  have hskip : (IStream.mk text false).skip = ⟨c :: (cs ++ rest), false⟩ := by
    rw [IStream.skip, hdrop]
    rfl
  rw [addElem, hskip, if_neg (by simp), ht, extract_char (htoken.2 c List.mem_cons_self)]

/-! ## All values -/

/-- The memory of values. -/
def puts (o : Order) : List Field → List ℤ → List UInt8
  | k :: ks, v :: vs => k.typeId.put o v ++ puts o ks vs
  | _, _ => []

/-- Each value is one of the type that it is assigned to. -/
def AllFit (ks : List Field) (vs : List ℤ) : Prop := List.Forall₂ (fun k v => k.typeId.Fits v) ks vs

/-- Fields read values from a text. -/
def Reads (o : Order) (ks : List Field) (text : List Char) (vs : List ℤ) : Prop :=
  ∃ s, addFields o ks ⟨text, false⟩ = .ok (puts o ks vs, s)

theorem fits_of_lt_hundred {t : IntegerId} {n : ℕ} (h : n < 100) : t.Fits n := by
  rw [IntegerId.fits_iff]
  cases t <;> constructor <;> omega

/-- The first value that is read is the one written, and then the others are. -/
theorem reads_cons_iff {w : ℤ} {rest : List Char} (hv : k.typeId.Fits v) (hw : k.typeId.Fits w)
    (h : addElem o k.target k.typeId ⟨text, false⟩ = .ok (k.typeId.put o w, ⟨rest, false⟩)) :
    Reads o (k :: ks) text (v :: vs) ↔ v = w ∧ Reads o ks rest vs := by
  rw [Reads, Reads, addFields_cons_of_ok h]
  cases hks : addFields o ks ⟨rest, false⟩ with
  | error e => exact ⟨nofun, nofun⟩
  | ok r =>
    obtain ⟨bytes, s⟩ := r
    refine ⟨fun ⟨s', h⟩ => ?_, fun ⟨hvw, s', h⟩ => ⟨s', ?_⟩⟩
    · obtain ⟨hbytes, rfl⟩ := Prod.mk.inj (Except.ok.inj h)
      obtain ⟨hput, hrest⟩ := List.append_inj hbytes (by simp)
      exact ⟨IntegerId.put_inj hv hw hput.symm, s, congrArg Except.ok (Prod.ext hrest rfl)⟩
    · obtain ⟨rfl, rfl⟩ := Prod.mk.inj (Except.ok.inj h)
      rw [hvw]
      rfl

/-- The numbers of a queue as they are written. -/
def queued (q : List ℕ) : List (List Char) := q.map fun n : ℕ => Decimal.text n

@[simp] theorem queued_cons {n : ℕ} : queued (n :: q) = Decimal.text n :: queued q := rfl

theorem queued_concat {n : ℕ} : queued (q ++ [n]) = queued q ++ [Decimal.text n] := List.map_append

theorem spelled_number {t : Target} {targets : List Target} {n : ℕ} (ht : t ≠ .character) :
    spelled (t :: targets) (n :: q) = (n : ℤ) :: spelled targets (q ++ [n]) := by
  cases t with
  | character => exact absurd rfl ht
  | _ => rfl

/-- What a lagging decoder reads next, where it is right. -/
theorem reads_queue_iff {m : ℕ} {rest : List Char} (hv : k.typeId.Fits v) (hm : m < 100)
    (helem : addElem o k.target k.typeId ⟨text, false⟩ = .ok (k.typeId.put o m, ⟨rest, false⟩))
    (hrest : Spells isValidCharacter (queued q ++ (v :: vs).map Decimal.text) rest)
    (ih : Spells isValidCharacter (queued (q ++ [m]) ++ vs.map Decimal.text) rest →
      (Reads o ks rest vs ↔ vs = spelled (ks.map Field.target) (q ++ [m]))) :
    Reads o (k :: ks) text (v :: vs) ↔
      v :: vs = (m : ℤ) :: spelled (ks.map Field.target) (q ++ [m]) := by
  rw [reads_cons_iff hv (fits_of_lt_hundred hm) helem, List.cons_eq_cons]
  refine and_congr_right fun hvm => ih ?_
  rwa [queued_concat, List.append_assoc, List.singleton_append, ← hvm]

/-- **A lagging decoder reads what the numbers in front of it spell.** -/
theorem reads_lagging (hfit : AllFit ks vs) (hok : ∀ k ∈ ks, k.Ok) (hq : ∀ n ∈ q, n < 100)
    (hne : q ≠ []) (h : Spells isValidCharacter (queued q ++ vs.map Decimal.text) text) :
    Reads o ks text vs ↔ vs = spelled (ks.map Field.target) q := by
  induction hfit generalizing q text with
  | nil => exact ⟨fun _ => by rw [List.map_nil, spelled], fun _ => ⟨_, rfl⟩⟩
  | @cons k v ks vs hv _ ih =>
    obtain ⟨n, q, rfl⟩ := List.exists_cons_of_ne_nil hne
    obtain ⟨hkok, hok⟩ := List.forall_mem_cons.mp hok
    obtain ⟨hn, hq⟩ := List.forall_mem_cons.mp hq
    have hqueue : ∀ m < 100, ∀ n ∈ q ++ [m], n < 100 := fun m hm =>
      List.forall_mem_append.mpr ⟨hq, List.forall_mem_singleton.mpr hm⟩
    rw [queued_cons, List.cons_append] at h
    rw [List.map_cons]
    by_cases ht : k.target = .character
    · rw [ht]
      rw [Decimal.text_of_lt_hundred hn] at h
      by_cases hsmall : n < 10
      · -- a number of one digit is used up
        rw [if_pos hsmall] at h
        obtain ⟨rest, helem, hrest⟩ := addElem_char (o := o) ht h
        rw [Decimal.toNat_digitChar hsmall] at helem
        rw [if_pos rfl] at hrest
        rw [spelled, if_pos hsmall]
        exact reads_queue_iff hv (by omega) helem hrest
          (ih hok (hqueue _ (by omega)) (by simp))
      · -- a number of two digits leaves the second
        rw [if_neg hsmall] at h
        obtain ⟨rest, helem, hrest⟩ := addElem_char (o := o) ht h
        rw [Decimal.toNat_digitChar (by omega)] at helem
        rw [if_neg (List.cons_ne_nil _ _)] at hrest
        have hdigit : Decimal.text (n % 10 : ℕ) = [(n % 10).digitChar] := by
          rw [Decimal.text_of_lt_hundred (by omega), if_pos (by omega)]
        rw [← hdigit, ← List.cons_append, ← queued_cons] at hrest
        rw [spelled, if_neg hsmall]
        refine reads_queue_iff hv (by omega) helem hrest (ih hok ?_ (by simp))
        exact List.forall_mem_cons.mpr ⟨by omega, hqueue _ (by omega)⟩
    · rcases hkok with ⟨hchar, -⟩ | ⟨-, hbounds⟩
      · exact absurd hchar ht
      obtain ⟨rest, helem, hrest⟩ :=
        addElem_number (o := o) ht (hbounds n (fits_of_lt_hundred hn)) h
      rw [spelled_number ht]
      exact reads_queue_iff hv hn helem hrest (ih hok (hqueue n hn) (by simp))

theorem spellsItself_number {t : Target} {targets : List Target} (ht : t ≠ .character) :
    SpellsItself (t :: targets) (v :: vs) ↔ SpellsItself targets vs := by
  cases t with
  | character => exact absurd rfl ht
  | _ => exact Iff.rfl

theorem fiftyThree : Decimal.text 53 = ['5', '3'] := by decide

/-- **From a text that spells the values they are read if and only if they spell themselves.** -/
theorem reads_iff (hfit : AllFit ks vs) (hok : ∀ k ∈ ks, k.Ok)
    (h : Spells isValidCharacter (vs.map Decimal.text) text) :
    Reads o ks text vs ↔ SpellsItself (ks.map Field.target) vs := by
  induction hfit generalizing text with
  | nil => exact ⟨fun _ => trivial, fun _ => ⟨_, rfl⟩⟩
  | @cons k v ks vs hv hfit ih =>
    obtain ⟨hkok, hok⟩ := List.forall_mem_cons.mp hok
    rw [List.map_cons] at h ⊢
    rcases hkok with ⟨ht, htype⟩ | ⟨ht, hbounds⟩
    · obtain ⟨c, cs, hcs⟩ := List.exists_cons_of_ne_nil (Decimal.text_ne_nil v)
      rw [hcs] at h
      obtain ⟨rest, helem, hrest⟩ := addElem_char (o := o) ht h
      have hc : k.typeId.Fits c.toNat :=
        fits_of_lt_hundred (Decimal.toNat_lt_hundred (v := v) (hcs ▸ List.mem_cons_self))
      have hfree : v = c.toNat ↔ v = 53 := by
        refine ⟨fun hvc => Decimal.eq_of_head (by rw [hcs]; rfl) hvc.symm, ?_⟩
        rintro rfl
        rw [← (List.cons.inj (fiftyThree.symm.trans hcs)).1]
        rfl
      rw [reads_cons_iff hv hc helem, ht, SpellsItself, hfree]
      refine and_congr_right fun hv53 => ?_
      -- the 3 is left
      rw [hv53] at hcs
      rw [← (List.cons.inj (fiftyThree.symm.trans hcs)).2, if_neg (List.cons_ne_nil _ _)] at hrest
      exact reads_lagging (q := [3]) hfit hok (by decide) (List.cons_ne_nil _ _) hrest
    · obtain ⟨rest, helem, hrest⟩ := addElem_number (o := o) ht (hbounds v hv) h
      rw [reads_cons_iff hv hv helem, spellsItself_number ht, ih hok hrest]
      exact ⟨And.right, fun h => ⟨rfl, h⟩⟩

end Csv

end Rasdaman
