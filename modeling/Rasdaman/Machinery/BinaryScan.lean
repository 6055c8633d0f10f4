import Mathlib.Data.List.Perm.Basic
import Mathlib.Data.List.ReduceOption
import Mathlib.Data.Nat.ModEq
import Mathlib.Algebra.BigOperators.Group.List.Basic
import Mathlib.Algebra.Order.Group.Nat
import Rasdaman.Machinery.ExceptFold

/-!
# Machinery/BinaryScan — binary search that degenerates to a scan, with a budget

A search over a sorted list.  At the middle entry it either drops the upper half (`past`: the entry
and everything after it lies beyond the target), searches both halves (`short`: the entry alone is
ruled out), or gives up bisecting and scans outwards from the middle.  Every hit costs its weight; a
search whose budget is used up stops early.

`binaryScan_budget` says that such a search finds exactly the hits, each once, whenever the budget
covers the weights of all hits: stopping early never loses one, because no positive weight is left.
Where the budget is counted modulo some number, `scan_wrapping_iff` says exactly when one is lost.
-/

namespace BinaryScan

variable {α ε σ : Type}

/-- Visit the entries in order until a visit asks to stop; the flag says whether one did. -/
def scan (visit : α → σ → Except ε (σ × Bool)) : List α → σ → Except ε (σ × Bool)
  | [], s => .ok (s, false)
  | e :: es, s => do
    let (s', stop) ← visit e s
    if stop then .ok (s', true) else scan visit es s'

/-- The entries up to and including the first one that is `past` the target. -/
def upTo (past : α → Bool) : List α → List α
  | [] => []
  | e :: es => e :: if past e then [] else upTo past es

/-- The search over one segment, `fuel` bounding its length.  `done` is the test made on entry,
`more` the one made before the lower half is searched. -/
def binaryScan (past short : α → Bool) (visit : α → σ → Except ε (σ × Bool)) (done more : σ → Bool) :
    ℕ → List α → σ → Except ε σ
  | 0, _, s => .ok s
  | fuel + 1, es, s =>
    if done s then .ok s
    else
      match es.drop ((es.length - 1) / 2) with
      | [] => .ok s
      | t :: upper =>
        let lower := es.take ((es.length - 1) / 2)
        if past t then binaryScan past short visit done more fuel lower s
        else if short t then do
          let s' ← binaryScan past short visit done more fuel upper s
          if more s' then binaryScan past short visit done more fuel lower s' else .ok s'
        else do
          let (s', stop) ← scan visit (upTo past (t :: upper)) s
          if stop then .ok s' else
            let (s'', _) ← scan visit lower.reverse s'
            .ok s''

/-- A visit that, on entries that are `ok`, pays for hits out of a budget below `bound`, collects them
in order and asks to stop exactly when the budget is used up. -/
structure Budgeted (ok : α → Prop) (hit : α → Bool) (w : α → ℕ) (bound : ℕ)
    (visit : α → ℕ × List α → Except ε ((ℕ × List α) × Bool)) : Prop where
  pos : ∀ e, ok e → hit e = true → 0 < w e
  onHit : ∀ e a out, ok e → hit e = true → a < bound → w e ≤ a →
    visit e (a, out) = .ok ((a - w e, out ++ [e]), decide (a - w e = 0))
  onMiss : ∀ e a out, hit e = false → 0 < a → visit e (a, out) = .ok ((a, out), false)

/-- The total weight of the hits of a list. -/
def cost (hit : α → Bool) (w : α → ℕ) (es : List α) : ℕ := ((es.filter hit).map w).sum

section Cost

variable (hit : α → Bool) (w : α → ℕ)

@[simp] theorem cost_nil : cost hit w [] = 0 := rfl

theorem cost_append (es es' : List α) : cost hit w (es ++ es') = cost hit w es + cost hit w es' := by
  simp [cost, List.filter_append]

theorem cost_cons (e : α) (es : List α) :
    cost hit w (e :: es) = (if hit e then w e else 0) + cost hit w es := by
  by_cases h : hit e = true <;> simp [cost, h]

theorem cost_perm {es es' : List α} (h : es.Perm es') : cost hit w es = cost hit w es' :=
  ((h.filter _).map w).sum_eq

theorem cost_eq_zero_of_no_hit {es : List α} (h : ∀ e ∈ es, hit e = false) : cost hit w es = 0 := by
  have : es.filter hit = [] := List.filter_eq_nil_iff.mpr fun e he => by simp [h e he]
  simp [cost, this]

end Cost

variable {ok : α → Prop} {hit past short : α → Bool} {w : α → ℕ} {bound : ℕ}
  {visit : α → ℕ × List α → Except ε ((ℕ × List α) × Bool)}

theorem Budgeted.filter_eq_nil (hv : Budgeted ok hit w bound visit) {es : List α}
    (hok : ∀ e ∈ es, ok e) (h : cost hit w es = 0) : es.filter hit = [] := by
  refine List.filter_eq_nil_iff.mpr fun e he hh => ?_
  have hmem : w e ∈ (es.filter hit).map w := List.mem_map_of_mem (List.mem_filter.mpr ⟨he, hh⟩)
  exact absurd (List.sum_eq_zero_iff_forall_eq_nat.mp h _ hmem) (hv.pos e (hok e he) hh).ne'

/-- **A scan with a sufficient budget collects exactly the hits.** -/
theorem scan_budget (hv : Budgeted ok hit w bound visit) : ∀ (es : List α) (a : ℕ) (out : List α),
    (∀ e ∈ es, ok e) → 0 < a → a < bound → cost hit w es ≤ a →
      scan visit es (a, out)
        = .ok ((a - cost hit w es, out ++ es.filter hit), decide (a - cost hit w es = 0))
  | [], a, out, _, ha, _, _ => by simp [scan, ha.ne']
  | e :: es, a, out, hok, ha, hb, hc => by
    obtain ⟨hoke, hok⟩ := List.forall_mem_cons.mp hok
    rw [cost_cons] at hc
    by_cases hh : hit e = true
    · simp only [hh, if_true] at hc
      rw [scan, hv.onHit e a out hoke hh hb (by omega)]
      simp only [bind, Except.bind, cost_cons, hh, if_true, List.filter_cons_of_pos hh]
      by_cases h0 : a - w e = 0
      · -- The budget is used up here, so no hit can be left.
        have hrest : cost hit w es = 0 := by omega
        simp [h0, hrest, hv.filter_eq_nil hok hrest]
      · simp only [h0, decide_false, Bool.false_eq_true, if_false]
        rw [scan_budget hv es (a - w e) (out ++ [e]) hok (by omega) (by omega) (by omega),
          Nat.sub_sub, List.append_assoc, List.singleton_append]
    · have hh : hit e = false := by simpa using hh
      simp only [hh, Bool.false_eq_true, if_false, zero_add] at hc
      rw [scan, hv.onMiss e a out hh ha]
      simp only [bind, Except.bind, Bool.false_eq_true, if_false, cost_cons, hh, zero_add]
      rw [scan_budget hv es a out hok ha hb hc, List.filter_cons_of_neg (by simp [hh])]

theorem upTo_subset (past : α → Bool) (es : List α) : upTo past es ⊆ es := by
  induction es with
  | nil => exact List.Subset.refl _
  | cons e es ih =>
    rw [upTo]
    refine List.cons_subset_cons e ?_
    split
    · exact List.nil_subset _
    · exact ih

/-- Cutting the scan off after the first `past` entry loses no hit. -/
theorem filter_upTo {es : List α} (hsort : es.Pairwise fun a b => past a = true → past b = true)
    (hpast : ∀ e ∈ es, past e = true → hit e = false) :
    (upTo past es).filter hit = es.filter hit := by
  induction es with
  | nil => rfl
  | cons e es ih =>
    obtain ⟨he, hes⟩ := List.pairwise_cons.mp hsort
    have hpast' : ∀ e' ∈ es, past e' = true → hit e' = false :=
      fun e' he' => hpast e' (List.mem_cons_of_mem e he')
    by_cases hp : past e = true
    · have hnil : es.filter hit = [] := List.filter_eq_nil_iff.mpr fun e' he' => by
        simp [hpast' e' he' (he e' he' hp)]
      simp [upTo, hp, List.filter_cons, hnil]
    · simp only [upTo, hp, Bool.false_eq_true, if_false, List.filter_cons]
      rw [ih hes hpast']

/-- Where the middle may be hit, the upper half is scanned from it on, then the lower half downwards. -/
theorem scan_middle_budget {lower upper : List α} {t : α} {a : ℕ} {out : List α}
    (hv : Budgeted ok hit w bound visit)
    (hsort : (t :: upper).Pairwise fun a b => past a = true → past b = true)
    (hmiss : ∀ e ∈ t :: upper, past e = true → hit e = false) (hokl : ∀ e ∈ lower, ok e)
    (hoku : ∀ e ∈ t :: upper, ok e) (ha : 0 < a) (hb : a < bound)
    (hc : cost hit w lower + cost hit w (t :: upper) ≤ a) :
    ∃ found, found.Perm (lower.filter hit ++ (t :: upper).filter hit) ∧
      (do
        let (s', stop) ← scan visit (upTo past (t :: upper)) (a, out)
        if stop then .ok s' else
          let (s'', _) ← scan visit lower.reverse s'
          .ok s'') = .ok (a - (cost hit w lower + cost hit w (t :: upper)), out ++ found) := by
  have hup : (upTo past (t :: upper)).filter hit = (t :: upper).filter hit := filter_upTo hsort hmiss
  have hcostup : cost hit w (upTo past (t :: upper)) = cost hit w (t :: upper) := by simp only [cost, hup]
  have hokup : ∀ e ∈ upTo past (t :: upper), ok e := fun e he => hoku e (upTo_subset past _ he)
  rw [scan_budget hv _ a out hokup ha hb (by omega), hcostup, hup]
  simp only [bind, Except.bind, decide_eq_true_eq]
  have hrev : (lower.reverse.filter hit).Perm (lower.filter hit) := (List.reverse_perm lower).filter _
  by_cases h0 : a - cost hit w (t :: upper) = 0
  · have hzero : cost hit w lower = 0 := by omega
    refine ⟨(t :: upper).filter hit, ?_, ?_⟩
    · rw [hv.filter_eq_nil hokl hzero, List.nil_append]
    · rw [if_pos h0, hzero, Nat.zero_add]
  · refine ⟨(t :: upper).filter hit ++ lower.reverse.filter hit, ?_, ?_⟩
    · exact (List.perm_append_comm).trans (hrev.append_right _)
    · have hcr : cost hit w lower.reverse = cost hit w lower := cost_perm hit w (List.reverse_perm lower)
      rw [if_neg h0, scan_budget hv _ _ _ (fun e he => hokl e (List.mem_reverse.mp he)) (by omega)
        (by omega) (by omega), hcr, List.append_assoc, Nat.sub_sub, Nat.add_comm]

/-- **The search finds exactly the hits, each once, and pays exactly their weights.**  `past` is
upward closed along the list, and neither `past` nor `short` entries are hits. -/
theorem binaryScan_budget (hv : Budgeted ok hit w bound visit) (done more : ℕ × List α → Bool)
    (hdone : ∀ a out, 0 < a → done (a, out) = false) (hmore : ∀ a out, more (a, out) = decide (0 < a)) :
    ∀ (fuel : ℕ) (es : List α) (a : ℕ) (out : List α), es.length ≤ fuel → (∀ e ∈ es, ok e) →
      (es.Pairwise fun a b => past a = true → past b = true) →
      (∀ e ∈ es, past e = true ∨ short e = true → hit e = false) →
      0 < a → a < bound → cost hit w es ≤ a →
      ∃ found, found.Perm (es.filter hit) ∧
        binaryScan past short visit done more fuel es (a, out)
          = .ok (a - cost hit w es, out ++ found)
  | 0, es, a, out, hlen, _, _, _, _, _, _ => by
    obtain rfl : es = [] := List.length_eq_zero_iff.mp (Nat.le_zero.mp hlen)
    exact ⟨[], by simp, by simp [binaryScan]⟩
  | fuel + 1, es, a, out, hlen, hok, hsort, hmiss, ha, hb, hc => by
    rw [binaryScan, hdone a out ha]
    simp only [Bool.false_eq_true, if_false]
    set m := (es.length - 1) / 2 with hm
    match hd : es.drop m with
    | [] =>
      have hnil : es = [] := by
        have := List.drop_eq_nil_iff.mp hd
        exact List.length_eq_zero_iff.mp (by omega)
      exact ⟨[], by simp [hnil], by simp [hnil]⟩
    | t :: upper =>
      have hes : es = es.take m ++ t :: upper := by rw [← hd, List.take_append_drop]
      set lower := es.take m with hlow
      rw [hes] at hsort hmiss hc hlen hok
      obtain ⟨hsl, hsu, hcross⟩ := List.pairwise_append.mp hsort
      obtain ⟨ht, hsu'⟩ := List.pairwise_cons.mp hsu
      rw [cost_append, cost_cons] at hc
      simp only [List.length_append, List.length_cons] at hlen
      have hml : ∀ e ∈ lower, past e = true ∨ short e = true → hit e = false :=
        fun e he => hmiss e (List.mem_append_left _ he)
      have hmu : ∀ e ∈ t :: upper, past e = true ∨ short e = true → hit e = false :=
        fun e he => hmiss e (List.mem_append_right _ he)
      have hmu' : ∀ e ∈ upper, past e = true ∨ short e = true → hit e = false :=
        fun e he => hmu e (List.mem_cons_of_mem _ he)
      have hokl : ∀ e ∈ lower, ok e := fun e he => hok e (List.mem_append_left _ he)
      have hoku : ∀ e ∈ t :: upper, ok e := fun e he => hok e (List.mem_append_right _ he)
      have hoku' : ∀ e ∈ upper, ok e := fun e he => hoku e (List.mem_cons_of_mem _ he)
      have hfilter : es.filter hit = lower.filter hit ++ (t :: upper).filter hit := by
        conv_lhs => rw [hes, List.filter_append]
      have hcost : cost hit w es = cost hit w lower + cost hit w (t :: upper) := by
        conv_lhs => rw [hes, cost_append]
      by_cases hpast : past t = true
      · -- Nothing from the middle on can be hit.
        have hno : ∀ e ∈ t :: upper, hit e = false := fun e he => by
          rcases List.mem_cons.mp he with rfl | he'
          · exact hmu e he (Or.inl hpast)
          · exact hmu e he (Or.inl (ht e he' hpast))
        have hzero := cost_eq_zero_of_no_hit hit w hno
        have hnil : (t :: upper).filter hit = [] :=
          List.filter_eq_nil_iff.mpr fun e he => by simp [hno e he]
        obtain ⟨found, hperm, heq⟩ := binaryScan_budget hv done more hdone hmore fuel lower a out
          (by omega) hokl hsl hml ha hb (by omega)
        refine ⟨found, by rw [hfilter, hnil, List.append_nil]; exact hperm, ?_⟩
        simp only [hpast, if_true, hcost, hzero, Nat.add_zero]
        exact heq
      · by_cases hshort : short t = true
        · have htmiss : hit t = false := hmu t (by simp) (Or.inr hshort)
          have hcostu : cost hit w (t :: upper) = cost hit w upper := by simp [cost_cons, htmiss]
          have hfilteru : (t :: upper).filter hit = upper.filter hit := by simp [htmiss]
          simp only [htmiss, Bool.false_eq_true, if_false, zero_add] at hc
          obtain ⟨found, hperm, heq⟩ := binaryScan_budget hv done more hdone hmore fuel upper a out
            (by omega) hoku' hsu' hmu' ha hb (by omega)
          simp only [hpast, hshort, if_true, Bool.false_eq_true, if_false]
          rw [heq]
          simp only [bind, Except.bind, hmore, decide_eq_true_eq]
          by_cases hleft : 0 < a - cost hit w upper
          · obtain ⟨found', hperm', heq'⟩ := binaryScan_budget hv done more hdone hmore fuel lower
              (a - cost hit w upper) (out ++ found) (by omega) hokl hsl hml hleft (by omega) (by omega)
            refine ⟨found ++ found', ?_, ?_⟩
            · rw [hfilter, hfilteru]
              exact (hperm.append hperm').trans List.perm_append_comm
            · rw [if_pos hleft, heq', hcost, hcostu, List.append_assoc, Nat.sub_sub, Nat.add_comm]
          · -- The upper half used the budget up: the lower half holds no hit.
            have hzero : cost hit w lower = 0 := by omega
            refine ⟨found, ?_, ?_⟩
            · rw [hfilter, hfilteru, hv.filter_eq_nil hokl hzero, List.nil_append]
              exact hperm
            · rw [if_neg hleft, hcost, hcostu, hzero, Nat.zero_add]
        · rw [← cost_cons] at hc
          simp only [hpast, hshort, Bool.false_eq_true, if_false]
          rw [hfilter, hcost]
          exact scan_middle_budget hv hsu (fun e he hp => hmu e he (Or.inl hp)) hokl hoku ha hb hc

/-! ## Whatever every visit keeps, the search keeps -/

section Invariant

variable {visit : α → σ → Except ε (σ × Bool)} {P : σ → Prop}

theorem scan_inv : ∀ {es : List α} {s s' : σ} {stop : Bool},
    (∀ e ∈ es, ∀ s s' b, P s → visit e s = .ok (s', b) → P s') → P s →
      scan visit es s = .ok (s', stop) → P s'
  | [], _, _, _, _, hs, hrun => by
    cases hrun
    exact hs
  | e :: es, s, s', stop, hv, hs, hrun => by
    rw [scan] at hrun
    obtain ⟨⟨t, b⟩, hvisit, hrun⟩ := ExceptFold.bind_eq_ok hrun
    have ht := hv e (List.mem_cons_self ..) s t b hs hvisit
    dsimp only at hrun
    split at hrun
    · cases hrun
      exact ht
    · exact scan_inv (fun e' he' => hv e' (List.mem_cons_of_mem _ he')) ht hrun

/-- **The invariant rule of the search.** -/
theorem binaryScan_inv {done more : σ → Bool} : ∀ {fuel : ℕ} {es : List α} {s s' : σ},
    (∀ e ∈ es, ∀ s s' b, P s → visit e s = .ok (s', b) → P s') → P s →
      binaryScan past short visit done more fuel es s = .ok s' → P s'
  | 0, _, _, _, _, hs, hrun => by
    cases hrun
    exact hs
  | fuel + 1, es, s, s', hv, hs, hrun => by
    rw [binaryScan] at hrun
    split at hrun
    · cases hrun
      exact hs
    · split at hrun
      · cases hrun
        exact hs
      · next t upper hd =>
        have hlow : ∀ e ∈ es.take ((es.length - 1) / 2), e ∈ es := fun e he => List.mem_of_mem_take he
        have hmid : ∀ e ∈ t :: upper, e ∈ es := fun e he => List.mem_of_mem_drop (hd ▸ he)
        have hup : ∀ e ∈ upper, e ∈ es := fun e he => hmid e (List.mem_cons_of_mem _ he)
        dsimp only at hrun
        split at hrun
        · exact binaryScan_inv (fun e he => hv e (hlow e he)) hs hrun
        · split at hrun
          · obtain ⟨u, hupper, hrun⟩ := ExceptFold.bind_eq_ok hrun
            have hu := binaryScan_inv (fun e he => hv e (hup e he)) hs hupper
            split at hrun
            · exact binaryScan_inv (fun e he => hv e (hlow e he)) hu hrun
            · cases hrun
              exact hu
          · obtain ⟨⟨u, stop⟩, hfwd, hrun⟩ := ExceptFold.bind_eq_ok hrun
            have hu := scan_inv (fun e he => hv e (hmid e (upTo_subset past _ he))) hs hfwd
            dsimp only at hrun
            split at hrun
            · cases hrun
              exact hu
            · obtain ⟨⟨v, stop'⟩, hbwd, hrun⟩ := ExceptFold.bind_eq_ok hrun
              cases hrun
              exact scan_inv (fun e he => hv e (hlow e (List.mem_reverse.mp he))) hu hbwd

end Invariant

/-! ## The order of the search

A search that is never stopped goes through its entries in an order of its own.  Between them it tests
now and then, without visiting anything, whether to go on. -/

section Order

variable {past short : α → Bool} {visit : α → σ → Except ε (σ × Bool)} {more : σ → Bool}

/-- The visits of the search over one segment, in order; `none` is a test between two halves. -/
def visits (past short : α → Bool) : ℕ → List α → List (Option α)
  | 0, _ => []
  | fuel + 1, es =>
    match es.drop ((es.length - 1) / 2) with
    | [] => []
    | t :: upper =>
      let lower := es.take ((es.length - 1) / 2)
      if past t then visits past short fuel lower
      else if short t then visits past short fuel upper ++ none :: visits past short fuel lower
      else (upTo past (t :: upper) ++ lower.reverse).map some

/-- A visit, or a test between two halves. -/
def visitOrTest (visit : α → σ → Except ε (σ × Bool)) (more : σ → Bool) :
    Option α → σ → Except ε (σ × Bool)
  | some e, s => visit e s
  | none, s => .ok (s, !more s)

theorem scan_append (l l' : List α) (s : σ) : scan visit (l ++ l') s =
    (scan visit l s >>= fun r => if r.2 then .ok r else scan visit l' r.1) := by
  induction l generalizing s with
  | nil => rfl
  | cons e l ih =>
    rw [List.cons_append, scan, scan]
    cases visit e s with
    | error e => rfl
    | ok r =>
      obtain ⟨s', stop⟩ := r
      cases stop with
      | true => rfl
      | false => exact ih s'

theorem scan_map_some (l : List α) (s : σ) :
    scan (visitOrTest visit more) (l.map some) s = scan visit l s := by
  induction l generalizing s with
  | nil => rfl
  | cons e l ih =>
    rw [List.map_cons, scan, scan]
    cases hv : visit e s with
    | error e => simp only [visitOrTest, hv]; rfl
    | ok r =>
      obtain ⟨s', stop⟩ := r
      simp only [visitOrTest, hv]
      cases stop with
      | true => rfl
      | false => exact ih s'

/-- A scan that stops leaves no reason to go on. -/
theorem more_of_scan_stop (hstop : ∀ e s s', visit e s = .ok (s', true) → more s' = false)
    {l : List (Option α)} {s s' : σ} (h : scan (visitOrTest visit more) l s = .ok (s', true)) :
    more s' = false := by
  induction l generalizing s with
  | nil => exact nomatch h
  | cons o l ih =>
    rw [scan] at h
    obtain ⟨⟨t, stop⟩, ho, h⟩ := ExceptFold.bind_eq_ok h
    cases stop with
    | false => exact ih h
    | true =>
      obtain rfl : t = s' := congrArg Prod.fst (Except.ok.inj h)
      cases o with
      | some e => exact hstop e s t ho
      | none =>
        rw [visitOrTest] at ho
        obtain ⟨rfl, hmore⟩ := Prod.mk.inj (Except.ok.inj ho)
        simpa using hmore

/-- **The search is the scan of its visits**, when whatever stops a visit also keeps the search from
going on. -/
theorem binaryScan_eq_scan (hstop : ∀ e s s', visit e s = .ok (s', true) → more s' = false)
    (fuel : ℕ) (es : List α) (s : σ) :
    binaryScan past short visit (fun _ => false) more fuel es s =
      (scan (visitOrTest visit more) (visits past short fuel es) s >>= fun r => .ok r.1) := by
  induction fuel generalizing es s with
  | zero => rfl
  | succ fuel ih =>
    rw [binaryScan, visits]
    simp only [Bool.false_eq_true, if_false]
    cases es.drop ((es.length - 1) / 2) with
    | nil => rfl
    | cons t upper =>
      dsimp only
      by_cases hpast : past t = true
      · rw [if_pos hpast, if_pos hpast]
        exact ih _ s
      · rw [if_neg hpast, if_neg hpast]
        by_cases hshort : short t = true
        · rw [if_pos hshort, if_pos hshort, ih, scan_append]
          cases hup : scan (visitOrTest visit more) (visits past short fuel upper) s with
          | error e => rfl
          | ok r =>
            obtain ⟨s', stop⟩ := r
            simp only [bind, Except.bind]
            cases stop with
            | true =>
              rw [more_of_scan_stop hstop hup]
              rfl
            | false =>
              simp only [Bool.false_eq_true, if_false, scan, visitOrTest, bind, Except.bind]
              cases more s' with
              | true => exact ih _ s'
              | false => rfl
        · rw [if_neg hshort, if_neg hshort, List.map_append, scan_append, scan_map_some]
          cases scan visit (upTo past (t :: upper)) s with
          | error e => rfl
          | ok r =>
            obtain ⟨s', stop⟩ := r
            simp only [bind, Except.bind]
            cases stop with
            | true => rfl
            | false =>
              simp only [Bool.false_eq_true, if_false, scan_map_some]

theorem reduceOption_map_some (l : List α) : (l.map some).reduceOption = l := by
  simp [List.reduceOption, List.filterMap_map]

/-- The visits reach every hit once. -/
theorem visits_perm {hit : α → Bool} (fuel : ℕ) (es : List α) (hlen : es.length ≤ fuel)
    (hsort : es.Pairwise fun a b => past a = true → past b = true)
    (hmiss : ∀ e ∈ es, past e = true ∨ short e = true → hit e = false) :
    ((visits past short fuel es).reduceOption.filter hit).Perm (es.filter hit) := by
  induction fuel generalizing es with
  | zero =>
    obtain rfl : es = [] := List.length_eq_zero_iff.mp (Nat.le_zero.mp hlen)
    exact .refl _
  | succ fuel ih =>
    rw [visits]
    set m := (es.length - 1) / 2 with hm
    match hd : es.drop m with
    | [] =>
      have := List.drop_eq_nil_iff.mp hd
      obtain rfl : es = [] := List.length_eq_zero_iff.mp (by omega)
      exact .refl _
    | t :: upper =>
      have hes : es = es.take m ++ t :: upper := by rw [← hd, List.take_append_drop]
      dsimp only
      generalize es.take m = lower at hes ⊢
      subst hes
      simp only [List.length_append, List.length_cons] at hlen
      obtain ⟨hsl, hsu, -⟩ := List.pairwise_append.mp hsort
      obtain ⟨ht, hsu'⟩ := List.pairwise_cons.mp hsu
      have hml : ∀ e ∈ lower, past e = true ∨ short e = true → hit e = false :=
        fun e he => hmiss e (List.mem_append_left _ he)
      have hmu : ∀ e ∈ t :: upper, past e = true ∨ short e = true → hit e = false :=
        fun e he => hmiss e (List.mem_append_right _ he)
      have hlower := ih lower (by omega) hsl hml
      rw [List.filter_append]
      by_cases hpast : past t = true
      · have hnil : (t :: upper).filter hit = [] := List.filter_eq_nil_iff.mpr fun e he => by
          rcases List.mem_cons.mp he with rfl | he'
          · simp [hmu e he (Or.inl hpast)]
          · simp [hmu e he (Or.inl (ht e he' hpast))]
        rw [if_pos hpast, hnil, List.append_nil]
        exact hlower
      · rw [if_neg hpast]
        by_cases hshort : short t = true
        · have htmiss : ¬ hit t = true := by simp [hmu t (by simp) (Or.inr hshort)]
          have hupper := ih upper (by omega) hsu' fun e he => hmu e (List.mem_cons_of_mem _ he)
          rw [if_pos hshort, List.reduceOption_append, List.reduceOption_cons_of_none,
            List.filter_append, List.filter_cons_of_neg htmiss]
          exact (hupper.append hlower).trans List.perm_append_comm
        · have hup := filter_upTo hsu fun e he hp => hmu e he (Or.inl hp)
          have hrev : (lower.reverse.filter hit).Perm (lower.filter hit) :=
            (List.reverse_perm lower).filter _
          rw [if_neg hshort, reduceOption_map_some, List.filter_append, hup]
          exact List.perm_append_comm.trans (hrev.append_right _)

end Order

/-! ## A budget that wraps

When the budget is counted modulo `M`, a scan also stops where what it has paid agrees with the budget
modulo `M`. -/

section Wrapping

variable {hit : α → Bool} {w : α → ℕ} {M : ℕ}

/-- A visit that pays for hits modulo `M`, collects them in order and asks to stop exactly when the
budget is used up; a test does so as well. -/
structure Wrapping (hit : α → Bool) (w : α → ℕ) (M : ℕ)
    (visit : Option α → ℕ × List α → Except ε ((ℕ × List α) × Bool)) : Prop where
  onHit : ∀ e a out, hit e = true → a < M → ∃ a' < M, a' + w e ≡ a [MOD M] ∧
    visit (some e) (a, out) = .ok ((a', out ++ [e]), decide (a' = 0))
  onMiss : ∀ e a out, hit e = false → visit (some e) (a, out) = .ok ((a, out), decide (a = 0))
  onTest : ∀ a out, visit none (a, out) = .ok ((a, out), decide (a = 0))

variable {visit : Option α → ℕ × List α → Except ε ((ℕ × List α) × Bool)}

/-- One round: what it pays, and that it stops exactly when nothing is left. -/
theorem Wrapping.step (hv : Wrapping hit w M visit) (o : Option α) {a : ℕ} (ha : a < M)
    (out : List α) : ∃ a' < M, a' + cost hit w [o].reduceOption ≡ a [MOD M] ∧
      visit o (a, out) = .ok ((a', out ++ [o].reduceOption.filter hit), decide (a' = 0)) := by
  cases o with
  | none => exact ⟨a, ha, rfl, by simpa using hv.onTest a out⟩
  | some e =>
    by_cases hh : hit e = true
    · obtain ⟨a', ha', hpaid, heq⟩ := hv.onHit e a out hh ha
      exact ⟨a', ha', by simpa [cost, hh] using hpaid, by simpa [hh] using heq⟩
    · have hmiss : hit e = false := by simpa using hh
      exact ⟨a, ha, by simp [cost, hmiss, Nat.ModEq.refl], by simpa [hmiss] using hv.onMiss e a out hmiss⟩

/-- **A scan with a wrapping budget collects the hits of a first part of the list**, and stops there
exactly when it has visited something and nothing is left. -/
theorem scan_wrapping (hv : Wrapping hit w M visit) (l : List (Option α)) {a : ℕ} (ha : a < M)
    (out : List α) : ∃ pre post a', l = pre ++ post ∧ a' < M ∧
      a' + cost hit w pre.reduceOption ≡ a [MOD M] ∧ (post ≠ [] → pre ≠ [] ∧ a' = 0) ∧
      scan visit l (a, out) =
        .ok ((a', out ++ pre.reduceOption.filter hit), decide (pre ≠ [] ∧ a' = 0)) := by
  induction l generalizing a out with
  | nil => exact ⟨[], [], a, rfl, ha, rfl, fun h => absurd rfl h, by simp [scan]⟩
  | cons o l ih =>
    obtain ⟨b, hb, hpaid, hvisit⟩ := hv.step o ha out
    rw [scan, hvisit]
    simp only [bind, Except.bind, decide_eq_true_eq]
    by_cases h0 : b = 0
    · exact ⟨[o], l, b, rfl, hb, hpaid, fun _ => ⟨List.cons_ne_nil _ _, h0⟩, by simp [h0]⟩
    · obtain ⟨pre, post, a', rfl, ha', hrest, hpost, heq⟩ :=
        ih hb (out ++ [o].reduceOption.filter hit)
      have happ : (o :: pre).reduceOption = [o].reduceOption ++ pre.reduceOption :=
        List.reduceOption_append [o] pre
      refine ⟨o :: pre, post, a', rfl, ha', ?_, fun h => ⟨List.cons_ne_nil _ _, (hpost h).2⟩, ?_⟩
      · rw [happ, cost_append, Nat.add_comm (cost _ _ [o].reduceOption), ← Nat.add_assoc]
        exact (hrest.add_right _).trans hpaid
      · rw [if_neg h0, heq, happ, List.filter_append, List.append_assoc]
        refine congrArg Except.ok (Prod.ext rfl (decide_eq_decide.mpr ?_))
        constructor
        · exact fun h => ⟨List.cons_ne_nil _ _, h.2⟩
        · rintro ⟨-, hzero⟩
          refine ⟨?_, hzero⟩
          rintro rfl
          have hzero' : a' ≡ b [MOD M] := hrest
          exact h0 ((Nat.ModEq.eq_of_lt_of_lt hzero' ha' hb).symm.trans hzero)

/-- What is paid never agrees with the budget modulo `M` while a hit is left. -/
def Lasts (hit : α → Bool) (w : α → ℕ) (M budget : ℕ) (l : List (Option α)) : Prop :=
  ∀ pre post, l = pre ++ post → pre ≠ [] → cost hit w pre.reduceOption ≡ budget [MOD M] →
    post.reduceOption.filter hit = []

/-- **A scan with a wrapping budget finds all hits exactly when the budget lasts.** -/
theorem scan_wrapping_iff (hv : Wrapping hit w M visit) (l : List (Option α)) {a budget : ℕ}
    (ha : a < M) (hbudget : a ≡ budget [MOD M]) :
    (∃ r, scan visit l (a, []) = .ok r ∧ r.1.2.Perm (l.reduceOption.filter hit)) ↔
      Lasts hit w M budget l := by
  constructor
  · rintro ⟨r, hr, hperm⟩ pre post rfl hne hagree
    obtain ⟨seen, left, a', rfl, ha', hpaid, hleft, heq⟩ := scan_wrapping hv pre ha []
    -- the scan stops within `pre`, at the latest at its end
    have hstop : seen ≠ [] ∧ a' = 0 := by
      by_cases hl : left = []
      · subst hl
        rw [List.append_nil] at hne hagree
        refine ⟨hne, ?_⟩
        have hsum : a' + cost hit w seen.reduceOption ≡ 0 + cost hit w seen.reduceOption [MOD M] := by
          rw [Nat.zero_add]
          exact hpaid.trans (hbudget.trans hagree.symm)
        exact Nat.ModEq.eq_of_lt_of_lt hsum.add_right_cancel' ha' (by omega)
      · exact hleft hl
    rw [scan_append, heq, decide_eq_true hstop] at hr
    obtain rfl := Except.ok.inj hr
    have hlen := hperm.length_eq
    simp only [List.nil_append, List.reduceOption_append, List.filter_append,
      List.length_append] at hlen
    exact List.length_eq_zero_iff.mp (by omega)
  · intro hlasts
    obtain ⟨pre, post, a', rfl, ha', hpaid, hpost, heq⟩ := scan_wrapping hv l ha []
    refine ⟨_, heq, ?_⟩
    by_cases hl : post = []
    · rw [hl, List.append_nil]
      exact .refl _
    · obtain ⟨hne, rfl⟩ := hpost hl
      rw [Nat.zero_add] at hpaid
      rw [List.reduceOption_append, List.filter_append,
        hlasts pre post rfl hne (hpaid.trans hbudget), List.append_nil]
      exact .refl _

/-- A budget below `M` that covers all hits lasts. -/
theorem lasts_of_lt {budget : ℕ} {l : List (Option α)} (hpos : ∀ e, hit e = true → 0 < w e)
    (hlt : budget < M) (hle : cost hit w l.reduceOption ≤ budget) : Lasts hit w M budget l := by
  rintro pre post rfl - hagree
  rw [List.reduceOption_append, cost_append] at hle
  have heq := Nat.ModEq.eq_of_lt_of_lt hagree (by omega) hlt
  have hzero : cost hit w post.reduceOption = 0 := by omega
  refine List.filter_eq_nil_iff.mpr fun e he hh => ?_
  have hmem : w e ∈ (post.reduceOption.filter hit).map w :=
    List.mem_map_of_mem (List.mem_filter.mpr ⟨he, hh⟩)
  exact absurd (List.sum_eq_zero_iff_forall_eq_nat.mp hzero _ hmem) (hpos e hh).ne'

end Wrapping

end BinaryScan
