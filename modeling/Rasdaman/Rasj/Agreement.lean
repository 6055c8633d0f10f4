import Rasdaman.Rasj.Calls

/-!
# Rasj/Agreement — the Java client and the C++ classes

`java_agrees_iff`: which calls have the same effect in the client as in C++.
-/

namespace Rasdaman

namespace IntervalCall

/-! ## Intervals -/

variable {h : Heap Sinterval} {this : ℕ} {op : IntervalOp}

theorem returns_interval {s t : Sinterval} (h : s = t) :
    Outcome.returns (CallValue.interval s) = .returns (.interval t) := h ▸ rfl

theorem opOf_agrees (h : Heap Sinterval) (this a b : ℕ) (op : IntervalOp) :
    ((object (RasSInterval.opOf op h this a b)).1.get, (object (RasSInterval.opOf op h this a b)).2) =
      assign h.get this (Sinterval.calcOp op (h.get a) (h.get b)) := by
  rw [← RasSInterval.calc_value, RasSInterval.opOf]
  cases RasSInterval.calcOp op (h.get a) (h.get b) with
  | error e => rfl
  | ok c => exact congrArg (Prod.mk _) (returns_interval Heap.get_set_self)

theorem opWith_agrees {interval : ℕ} (hop : op ≠ .closure) (ht : (h.get this).Sound)
    (hi : (h.get interval).Sound) : ((object (RasSInterval.opWith op h this interval)).1.get,
      (object (RasSInterval.opWith op h this interval)).2) =
        assign h.get this (Sinterval.calcOp op (h.get interval) (h.get this)) := by
  rw [← RasSInterval.calcWith_eq ht hi, RasSInterval.opWith]
  cases RasSInterval.calcWith op (h.get this) (h.get interval) with
  | error e => rfl
  | ok v =>
    simp only [if_neg hop]
    exact congrArg (Prod.mk _) (returns_interval Heap.get_set_self)

/-- A call with the same outcome and variables has the same effect. -/
theorem java_eq_cpp {call : IntervalCall}
    (heq : ((call.javaResult h this).1.get, (call.javaResult h this).2) = call.cppResult h.get this) :
    call.java h this = call.cpp h.get this := by
  rw [java, cpp, ← heq]

theorem create_agrees {interval : ℕ} (ht : this < h.next) (hi : interval < h.next) :
    (create op interval).java h this = (create op interval).cpp h.get this := by
  obtain ⟨hextends, -, hvalue⟩ :
    RasMInterval.Extends h (RasSInterval.create op h this interval).1 ∧ _ ∧ _ :=
      RasMInterval.create_spec ht hi
  have houtcome : ((create op interval).javaResult h this).2 =
      ((create op interval).cppResult h.get this).2 := by
    simp only [javaResult, cppResult, object, ← hvalue, Option.map_map]
    rfl
  have hafter : ∀ r ∈ (create op interval).involved this,
      ((create op interval).javaResult h this).1.get r = ((create op interval).cppResult h.get this).1 r :=
    List.forall_mem_cons.mpr ⟨hextends.get_eq _ ht, List.forall_mem_singleton.mpr (hextends.get_eq _ hi)⟩
  rw [java, cpp, houtcome]
  exact congrArg _ (List.map_congr_left fun r hr => congrArg _ (hafter r hr))

/-- `closureWith` leaves the receiver as it is. -/
theorem closureWith_agrees_iff {interval : ℕ} (ht : this < h.next) (hi : interval < h.next)
    (hst : (h.get this).Sound) (hsi : (h.get interval).Sound) :
    (opWith .closure interval).java h this = (opWith .closure interval).cpp h.get this ↔
      (h.get this).covers (h.get interval) = true := by
  obtain ⟨v, hv, -⟩ := Sinterval.calcClosure_spans (b := h.get this) hsi.valid
  have hcalc : RasSInterval.calcWith .closure (h.get this) (h.get interval) = .ok v :=
    (RasSInterval.calcWith_eq hst hsi).trans hv
  have hjava : (opWith .closure interval).java h this =
      ⟨.returns (.interval v), [.interval (h.get this), .interval (h.get interval)]⟩ := by
    simp only [java, javaResult, object, RasSInterval.opWith, hcalc, if_true, involved, List.map_cons,
      List.map_nil, Heap.get_new_of_lt ht, Heap.get_new_of_lt hi, Option.map_some, Heap.get_new_self]
    rfl
  have hcpp : (opWith .closure interval).cpp h.get this =
      ⟨.returns (.interval v), [.interval v, .interval (Function.update h.get this v interval)]⟩ := by
    simp only [cpp, cppResult, Sinterval.calcOp, hv, assign, involved, List.map_cons, List.map_nil,
      Function.update_self]
  rw [hjava, hcpp, ← Sinterval.calcClosure_eq_iff hst hsi, hv]
  constructor
  · intro heq
    exact congrArg _ (CallValue.interval.inj (List.cons.inj (CallEffect.mk.inj heq).2).1).symm
  · intro heq
    obtain rfl := Except.ok.inj heq
    rw [Function.update_eq_self]

/-- **Which calls on intervals agree.** -/
theorem agrees_iff (hsound : ∀ r < h.next, (h.get r).Sound) {call : IntervalCall}
    (ha : h.Allocated (call.involved this)) :
    call.java h this = call.cpp h.get this ↔ call.Meets h.get this := by
  have ht : this < h.next := ha this (by cases call <;> exact List.mem_cons_self)
  match call with
  | intersectsWith interval =>
    refine iff_of_true (java_eq_cpp (congrArg (Prod.mk _) ?_)) trivial
    exact congrArg (fun b => Outcome.returns (CallValue.truth b))
      (Bool.eq_iff_iff.mpr (decide_eq_true_iff.trans RasSInterval.intersectsWith_iff))
  | equals interval =>
    refine iff_of_true (java_eq_cpp (congrArg (Prod.mk _) ?_)) trivial
    exact congrArg (fun b => Outcome.returns (CallValue.truth b)) (RasSInterval.equals_eq h this interval)
  | opOf op interval1 interval2 => exact iff_of_true (java_eq_cpp (opOf_agrees ..)) trivial
  | opWith op interval =>
    have hi : interval < h.next := ha interval (by simp [involved])
    by_cases hop : op = .closure
    · subst hop
      exact closureWith_agrees_iff ht hi (hsound _ ht) (hsound _ hi)
    · refine iff_of_true (java_eq_cpp (opWith_agrees hop (hsound _ ht) (hsound _ hi))) ?_
      cases op with
      | closure => exact absurd rfl hop
      | _ => trivial
  | create op interval => exact iff_of_true (create_agrees ht (ha interval (by simp [involved]))) trivial

end IntervalCall

namespace DomainCall

/-! ## Domains -/

variable {O : Objects} {this mint : ℕ} {op : IntervalOp}

theorem length_value (O : Objects) (d : ℕ) : (O.value d).length = (O.mints d).length := List.length_map _

theorem arrays_value (O : Objects) (d : ℕ) :
    CallValue.domain ((O.arrays d).map (Option.map O.heap.get)) = whole (O.value d) := by
  rw [Objects.arrays, whole, Objects.value, Heap.contents, List.map_map, List.map_map]
  rfl

theorem value_of_extends {h' : Heap Sinterval} (he : RasMInterval.Extends O.heap h') (d : ℕ) :
    CallValue.domain ((O.arrays d).map (Option.map h'.get)) = whole (O.value d) := by
  rw [← arrays_value]
  refine congrArg _ (List.map_congr_left fun x hx => ?_)
  obtain ⟨r, hr, rfl⟩ := List.mem_map.mp hx
  exact congrArg some (he.get_eq r (O.allocated d r hr))

/-- A method that makes new objects only has the same effect if it ends in the same way. -/
theorem java_eq_cpp_iff (call : DomainCall) {h' : Heap Sinterval} {outcome outcome' : Outcome CallValue}
    (he : RasMInterval.Extends O.heap h') (hjava : call.javaResult O this = (h', O.arrays, outcome))
    (hcpp : call.cppResult O.value this = (O.value, outcome')) :
    call.java O this = call.cpp O.value this ↔ outcome = outcome' := by
  have hafter : ((call.involved this).map fun d =>
      CallValue.domain ((O.arrays d).map (Option.map h'.get))) =
        (call.involved this).map fun d => whole (O.value d) :=
    List.map_congr_left fun d _ => value_of_extends he d
  rw [java, cpp, hjava, hcpp]
  simp only [hafter, CallEffect.mk.injEq, and_true]

theorem whole_inj {m m' : Minterval} : whole m = whole m' ↔ m = m' := by
  rw [whole, whole, CallValue.domain.injEq]
  exact (Option.some_injective _).list_map.eq_iff

theorem truth_inj {b b' : Bool} : Outcome.returns (CallValue.truth b) = .returns (.truth b') ↔ b = b' := by
  rw [Outcome.returns.injEq, CallValue.truth.injEq]

theorem ofOption_inj {α : Type} {x y : Option α} : Outcome.ofOption x = .ofOption y ↔ x = y := by
  cases x <;> cases y <;> simp [Outcome.ofOption]

theorem map_inj {α β : Type} {f : α → β} (hf : Function.Injective f) {x y : Outcome α} :
    x.map f = y.map f ↔ x = y := by
  cases x <;> cases y <;> simp [Outcome.map, hf.eq_iff]

theorem intersectsWith_agrees_iff :
    (intersectsWith mint).java O this = (intersectsWith mint).cpp O.value this ↔
      (O.mints this).length = (O.mints mint).length := by
  rw [java_eq_cpp_iff _ (.refl _) rfl rfl]
  by_cases hlen : (O.mints this).length = (O.mints mint).length
  · rw [if_neg (not_not.mpr hlen), truth_inj]
    exact iff_of_true (RasMInterval.intersectsWith_eq hlen) hlen
  · rw [if_pos hlen]
    exact iff_of_false nofun hlen

theorem equals_self (m : Minterval) : m.equals m = true := by
  rw [Minterval.equals, beq_self_eq_true, Bool.true_and]
  induction m with
  | nil => rfl
  | cons s m ih =>
    rw [List.zip_cons_cons, List.all_cons, ih, Bool.and_true]
    exact Sinterval.equals_iff.mpr ⟨rfl, rfl⟩

/-- `equals` of `RasMInterval` misses equal domains of other objects. -/
theorem equals_agrees_iff : (equals mint).java O this = (equals mint).cpp O.value this ↔
    ((O.value this).equals (O.value mint) = true → O.mints this = O.mints mint) := by
  rw [java_eq_cpp_iff _ (.refl _) rfl rfl, truth_inj, Bool.eq_iff_iff, RasMInterval.equals_iff]
  refine ⟨Iff.mpr, fun h => ⟨fun heq => ?_, h⟩⟩
  rw [Objects.value, Objects.value, heq]
  exact equals_self _

theorem covers_agrees : (covers mint).java O this = (covers mint).cpp O.value this := by
  rw [java_eq_cpp_iff _ (.refl _) rfl rfl, truth_inj, Bool.eq_iff_iff, decide_eq_true_iff]
  exact RasMInterval.covers_eq_one_iff

theorem coversPoint_agrees {pnt : List ℤ} :
    (coversPoint pnt).java O this = (coversPoint pnt).cpp O.value this := by
  rw [java_eq_cpp_iff _ (.refl _) rfl rfl, truth_inj, Bool.eq_iff_iff, decide_eq_true_iff]
  exact RasMInterval.coversPoint_eq_one_iff

theorem cellOffset_agrees_iff {point : List ℤ} :
    (cellOffset point).java O this = (cellOffset point).cpp O.value this ↔
      RasMInterval.OffsetAgrees (O.value this) point := by
  have hcpp : ((O.value this).cellOffset point).toOption.map (fun offset : ℕ => CallValue.number offset) =
      (((O.value this).cellOffset point).toOption.map ((↑) : ℕ → ℤ)).map CallValue.number :=
    Option.map_map .. |>.symm
  rw [java_eq_cpp_iff _ (.refl _) rfl rfl, ofOption_inj, hcpp,
    (Option.map_injective fun _ _ => CallValue.number.inj).eq_iff, RasMInterval.cellOffset_agrees_iff]

theorem sound_value (O : Objects) (d : ℕ) : ∀ s ∈ O.value d, s.Sound ∧ s.InRange := by
  intro s hs
  obtain ⟨r, hr, rfl⟩ := List.mem_map.mp hs
  exact O.sound r (O.allocated d r hr)

theorem cellPoint_agrees_iff {offset : ℕ} (h : RasMInterval.Measured (O.value this)) :
    (cellPoint offset).java O this = (cellPoint offset).cpp O.value this ↔
      RasMInterval.PointAgrees (O.value this) offset := by
  rw [java_eq_cpp_iff _ (.refl _) rfl rfl, map_inj fun _ _ => CallValue.point.inj]
  exact RasMInterval.cellPoint_agrees_iff
    (fun s hs => ⟨(sound_value O this s hs).1.valid, (sound_value O this s hs).2⟩) h offset

theorem allocatedPairs (O : Objects) (d d' : ℕ) :
    RasMInterval.AllocatedPairs O.heap ((O.mints d).zip (O.mints d')) := fun _ hp =>
  ⟨O.allocated d _ (List.of_mem_zip hp).1, O.allocated d' _ (List.of_mem_zip hp).2⟩

theorem create_agrees : (create op mint).java O this = (create op mint).cpp O.value this := by
  by_cases hlen : (O.mints this).length = (O.mints mint).length
  · obtain ⟨hextends, hvalue⟩ := RasMInterval.createLoop_spec op (allocatedPairs O this mint)
    have hlen' : (O.value this).length = (O.value mint).length := by rwa [length_value, length_value]
    have hcpp : (create op mint).cppResult O.value this = (O.value,
        .ofOption ((Minterval.create op (O.value this) (O.value mint)).toOption.map whole)) :=
      if_neg (not_not.mpr hlen')
    have hwhole := congrArg (Option.map whole) hvalue
    rw [RasMInterval.pairs_zip, Option.map_map] at hwhole
    refine (java_eq_cpp_iff (create op mint) hextends (if_neg (not_not.mpr hlen)) hcpp).mpr
      (congrArg _ ?_)
    rw [Minterval.create]
    exact hwhole
  · have hlen' : (O.value this).length ≠ (O.value mint).length := by rwa [length_value, length_value]
    exact (java_eq_cpp_iff (create op mint) (.refl _) (if_pos hlen) (if_pos hlen')).mpr rfl

theorem createTranslation_agrees_iff {t : List ℤ} :
    (createTranslation t).java O this = (createTranslation t).cpp O.value this ↔
      RasMInterval.TranslationAgrees (O.value this) t := by
  rw [← RasMInterval.translation_agrees_iff]
  by_cases hlen : (O.mints this).length = t.length
  · obtain ⟨hextends, hvalue⟩ := RasMInterval.translationLoop_spec (h := O.heap)
      ((O.mints this).zip t) fun p hp => O.allocated this _ (List.of_mem_zip hp).1
    have hzip : (((O.mints this).zip t).map fun p => (O.heap.get p.1, p.2)) = (O.value this).zip t :=
      (List.zip_map_left ..).symm
    have hlen' : (O.value this).length = t.length := by rwa [length_value]
    rw [hzip] at hvalue
    rw [java_eq_cpp_iff (createTranslation t) hextends (if_neg (not_not.mpr hlen)) rfl,
      if_neg (not_not.mpr hlen'), ← hvalue, ofOption_inj,
      ← (Option.map_injective fun _ _ => whole_inj.mp).eq_iff, Option.map_map]
    rfl
  · have hlen' : (O.value this).length ≠ t.length := by rwa [length_value]
    rw [java_eq_cpp_iff (createTranslation t) (.refl _) (if_pos hlen) rfl, if_pos hlen',
      Minterval.createTranslation, if_pos hlen']
    exact iff_of_true rfl rfl

/-! ## Receivers that take a result -/

/-- The effect of a method that changes its receiver. -/
def taken (V : ℕ → Minterval) (this : ℕ) (involved : List ℕ) (receiver : List (Option Sinterval))
    (threw : Bool) : CallEffect :=
  ⟨if threw then .throws else .returns (.domain receiver),
    involved.map fun d => .domain (if d = this then receiver else (V d).map some)⟩

theorem taken_inj {V : ℕ → Minterval} {involved : List ℕ} {receiver receiver' : List (Option Sinterval)}
    {threw threw' : Bool} : taken V this (this :: involved) receiver threw =
      taken V this (this :: involved) receiver' threw' ↔ (receiver, threw) = (receiver', threw') := by
  refine ⟨fun h => ?_, fun h => by obtain ⟨rfl, rfl⟩ := Prod.mk.inj h; rfl⟩
  obtain ⟨houtcome, hafter⟩ := CallEffect.mk.inj h
  have hreceiver := (List.cons.inj hafter).1
  simp only [if_true, CallValue.domain.injEq] at hreceiver
  cases threw <;> cases threw' <;> simp_all

/-- The effect of a method of `r_Minterval` that changes its receiver. -/
theorem taken_cpp (V : ℕ → Minterval) (this : ℕ) (involved : List ℕ) (r : Minterval × Bool) :
    (⟨if r.2 then .throws else .returns (whole r.1),
        involved.map fun d => whole (Function.update V this r.1 d)⟩ : CallEffect) =
      taken V this involved (r.1.map some) r.2 := by
  rw [taken, whole]
  refine congrArg _ (List.map_congr_left fun d _ => ?_)
  rw [whole]
  by_cases hd : d = this
  · subst hd
    rw [Function.update_self, if_pos rfl]
  · rw [Function.update_of_ne hd, if_neg hd]

theorem length_resize (m : Minterval) (n : ℕ) : (m.resize n).length = n := by
  rw [Minterval.resize]
  split
  · exact List.length_replicate
  · next h => exact not_not.mp h

theorem sound_resize {m : Minterval} (hm : ∀ s ∈ m, s.Sound) (n : ℕ) : ∀ s ∈ m.resize n, s.Sound := by
  rw [Minterval.resize]
  split
  · exact fun s hs => List.eq_of_mem_replicate hs ▸ Sinterval.sound_opened
  · exact hm

theorem resize_self (m : Minterval) : m.resize m.length = m := if_neg (not_not.mpr rfl)

theorem fst_of_mem_zip {m b : Minterval} : ∀ t ∈ List.zip m (List.zip m b), t.2.1 = t.1 := by
  induction m generalizing b with
  | nil => simp
  | cons s m ih =>
    cases b with
    | nil => simp
    | cons y b => exact List.forall_mem_cons.mpr ⟨rfl, ih⟩

theorem snd_of_mem_zip {m a : Minterval} : ∀ t ∈ List.zip m (List.zip a m), t.2.2 = t.1 := by
  induction m generalizing a with
  | nil => simp
  | cons s m ih =>
    cases a with
    | nil => simp
    | cons x a => exact List.forall_mem_cons.mpr ⟨rfl, ih⟩

/-- The effect of `unionOf` and the like, which make the receiver's intervals anew. -/
theorem opOf_java {mint1 mint2 : ℕ} (hlen : (O.mints mint1).length = (O.mints mint2).length)
    {r : Heap Sinterval × List (Option ℕ) × Bool}
    (hr : RasMInterval.ofLoop op (mint1 = this) (mint2 = this)
      ((O.mints mint1).zip (O.mints mint2)) O.heap = r)
    (he : RasMInterval.Extends O.heap r.1) : (opOf op mint1 mint2).java O this =
      taken O.value this [this, mint1, mint2] (r.2.1.map (Option.map r.1.get)) r.2.2 := by
  have hjava : (opOf op mint1 mint2).javaResult O this = (r.1, Function.update O.arrays this r.2.1,
      if r.2.2 then .throws else .returns (.domain (r.2.1.map (Option.map r.1.get)))) := by
    rw [← hr]
    exact if_neg (not_not.mpr hlen)
  rw [java, hjava, taken]
  refine congrArg _ (List.map_congr_left fun d _ => ?_)
  by_cases hd : d = this
  · subst hd
    simp only [Function.update_self, if_true]
  · simp only [Function.update_of_ne hd, if_neg hd]
    exact value_of_extends he d

theorem opOf_cpp {mint1 mint2 : ℕ} (hlen : (O.mints mint1).length = (O.mints mint2).length) :
    (opOf op mint1 mint2).cpp O.value this = taken O.value this [this, mint1, mint2]
      ((Minterval.opOf op (O.value this) (O.value mint1) (O.value mint2)).1.map some)
      (Minterval.opOf op (O.value this) (O.value mint1) (O.value mint2)).2 := by
  rw [← taken_cpp]
  have hlen' : (O.value mint1).length = (O.value mint2).length := by rwa [length_value, length_value]
  simp only [cpp, cppResult, if_neg (not_not.mpr hlen')]
  rfl

/-- **Which calls of `unionOf` and the like agree.** -/
theorem opOf_agrees_iff {mint1 mint2 : ℕ} :
    (opOf op mint1 mint2).java O this = (opOf op mint1 mint2).cpp O.value this ↔
      (opOf op mint1 mint2).Meets O this := by
  by_cases hlen : (O.mints mint1).length = (O.mints mint2).length
  · obtain ⟨hextends, harray, hthrew⟩ := RasMInterval.ofLoop_spec op (mint1 = this) (mint2 = this)
      (allocatedPairs O mint1 mint2)
    have hlen₁ := length_value O mint1
    have hlen₂ := length_value O mint2
    rw [opOf_java hlen rfl hextends, opOf_cpp hlen, taken_inj, harray, hthrew, Minterval.opOf]
    rw [Meets, hlen₁]
    refine Iff.trans ?_ ⟨fun h _ => h, fun h => h hlen⟩
    have hsnd : (((O.value this).resize (O.mints mint1).length).zip
        ((O.value mint1).zip (O.value mint2))).map Prod.snd =
          O.heap.pairs ((O.mints mint1).zip (O.mints mint2)) := by
      rw [RasMInterval.pairs_zip, List.map_snd_zip]
      · rfl
      · rw [length_resize, List.length_zip]
        omega
    rw [← hsnd, List.map_map]
    refine RasMInterval.fill_eq_iff ?_ ?_ ?_
    · rintro ⟨s, x, y⟩ ht
      have ht' := List.of_mem_zip ht
      have ht'' := List.of_mem_zip ht'.2
      exact ⟨sound_resize (fun s hs => (sound_value O this s hs).1) _ s ht'.1,
        (sound_value O mint1 x ht''.1).1, (sound_value O mint2 y ht''.2).1⟩
    · intro hself
      obtain rfl := of_decide_eq_true hself
      rw [← hlen₁, resize_self]
      exact fst_of_mem_zip
    · intro hself
      obtain rfl := of_decide_eq_true hself
      rw [hlen, ← hlen₂, resize_self]
      exact snd_of_mem_zip
  · have hlen' : (O.value mint1).length ≠ (O.value mint2).length := by rwa [length_value, length_value]
    rw [java_eq_cpp_iff (opOf op mint1 mint2) (.refl _) (if_pos hlen) (if_pos hlen')]
    exact iff_of_true rfl fun h => absurd h hlen

theorem opWith_cpp (op : IntervalOp) (hlen : (O.mints this).length = (O.mints mint).length) :
    (opWith op mint).cpp O.value this = taken O.value this [this, mint]
      ((Minterval.opWith op (O.value this) (O.value mint)).1.map some)
      (Minterval.opWith op (O.value this) (O.value mint)).2 := by
  rw [← taken_cpp]
  have hlen' : (O.value this).length = (O.value mint).length := by rwa [length_value, length_value]
  simp only [cpp, cppResult, if_neg (not_not.mpr hlen')]
  rfl

theorem soundPairs (O : Objects) (d d' : ℕ) :
    RasMInterval.SoundPairs O.heap ((O.mints d).zip (O.mints d')) := fun _ hp =>
  ⟨(O.sound _ (O.allocated d _ (List.of_mem_zip hp).1)).1,
    (O.sound _ (O.allocated d' _ (List.of_mem_zip hp).2)).1⟩

/-- The intervals after `unionWith` and the like are those of `r_Minterval`. -/
theorem opWith_java_iff (hlen : (O.mints this).length = (O.mints mint).length) {r : Heap Sinterval × Bool}
    (hr : RasMInterval.withLoop op ((O.mints this).zip (O.mints mint)) O.heap = r) :
    (opWith op mint).java O this = (opWith op mint).cpp O.value this ↔
      (r.1.contents (O.mints this), r.2) = Minterval.opWith op (O.value this) (O.value mint) ∧
        (mint ≠ this → r.1.contents (O.mints mint) = O.value mint) := by
  have hjava : (opWith op mint).javaResult O this = (r.1, O.arrays,
      if r.2 then .throws else .returns (whole (r.1.contents (O.mints this)))) := by
    rw [← hr]
    exact if_neg (not_not.mpr hlen)
  have hcontents : ∀ d, (O.arrays d).map (Option.map r.1.get) = (r.1.contents (O.mints d)).map some := by
    intro d
    rw [Objects.arrays, Heap.contents, List.map_map, List.map_map]
    rfl
  have hinj : ∀ m m' : Minterval, m.map some = m'.map some ↔ m = m' := fun _ _ =>
    (Option.some_injective _).list_map.eq_iff
  rw [opWith_cpp op hlen, java, hjava, taken]
  generalize Minterval.opWith op (O.value this) (O.value mint) = r'
  simp only [involved, List.map_cons, List.map_nil, hcontents, if_true, CallEffect.mk.injEq,
    List.cons.injEq, CallValue.domain.injEq, and_true, whole, hinj]
  constructor
  · rintro ⟨houtcome, hreceiver, hoperand⟩
    refine ⟨Prod.ext hreceiver ?_, fun hne => ?_⟩
    · cases h : r.2 <;> cases h' : r'.2 <;> simp [h, h'] at houtcome ⊢
    · rwa [if_neg hne, hinj] at hoperand
  · rintro ⟨hreceiver, hoperand⟩
    obtain ⟨hcontents', hthrew⟩ := Prod.ext_iff.mp hreceiver
    simp only at hcontents' hthrew
    refine ⟨by rw [hcontents', hthrew], hcontents', ?_⟩
    by_cases hd : mint = this
    · rw [if_pos hd, hd, hcontents']
    · rw [if_neg hd, hoperand hd]

/-- `closureWith` leaves the receiver as it is. -/
theorem closureWith_agrees_iff (hlen : (O.mints this).length = (O.mints mint).length) :
    (opWith .closure mint).java O this = (opWith .closure mint).cpp O.value this ↔
      (O.value this).covers (O.value mint) = true := by
  obtain ⟨hextends, hthrew⟩ :=
    RasMInterval.withLoop_closure (allocatedPairs O this mint) (soundPairs O this mint)
  have hcontents : ∀ d, (RasMInterval.withLoop .closure ((O.mints this).zip (O.mints mint))
      O.heap).1.contents (O.mints d) = O.value d := fun d => hextends.contents (O.allocated d)
  have hlen' : (O.value this).length = (O.value mint).length := by rwa [length_value, length_value]
  rw [opWith_java_iff hlen rfl, hcontents, hthrew, hcontents, eq_comm,
    Minterval.opWith_closure_iff (fun s hs => (sound_value O this s hs).1)
      (fun s hs => (sound_value O mint s hs).1) hlen']
  exact and_iff_left fun _ => rfl

theorem opWith_agrees (hmeets : (opWith op mint).Meets O this) :
    (opWith op mint).java O this = (opWith op mint).cpp O.value this := by
  by_cases hlen : (O.mints this).length = (O.mints mint).length
  · have hcondition := hmeets hlen
    by_cases hop : op = .closure
    · rw [if_pos hop] at hcondition
      subst hop
      exact (closureWith_agrees_iff hlen).mpr hcondition
    · rw [if_neg hop] at hcondition
      obtain ⟨hreceiver, hoperand⟩ :=
        RasMInterval.withLoop_of_isolated hop (soundPairs O this mint) hlen hcondition
      exact (opWith_java_iff hlen rfl).mpr ⟨hreceiver, fun _ => hoperand⟩
  · have hlen' : (O.value this).length ≠ (O.value mint).length := by rwa [length_value, length_value]
    rw [java_eq_cpp_iff (opWith op mint) (.refl _) (if_pos hlen) (if_pos hlen')]

theorem opWith_meets (hplain : (O.mints this).Nodup)
    (heq : (opWith op mint).java O this = (opWith op mint).cpp O.value this) :
    (opWith op mint).Meets O this := by
  intro hlen
  by_cases hop : op = .closure
  · rw [if_pos hop]
    subst hop
    exact (closureWith_agrees_iff hlen).mp heq
  · rw [if_neg hop]
    obtain ⟨hreceiver, hoperand⟩ := (opWith_java_iff hlen rfl).mp heq
    have hcontents := congrArg Prod.fst hreceiver
    refine RasMInterval.isolated_of_withLoop hop (soundPairs O this mint) hlen hplain hcontents ?_
    by_cases hd : mint = this
    · -- the receiver itself: what it takes is what it was
      subst hd
      exact hcontents.trans (Minterval.opWith_self hop _)
    · exact hoperand hd

/-- **Calls on domains agree** if they meet the condition. -/
theorem agrees_of_meets {call : DomainCall} (hmeets : call.Meets O this) :
    call.java O this = call.cpp O.value this := by
  cases call with
  | intersectsWith mint => exact intersectsWith_agrees_iff.mpr hmeets
  | equals mint => exact equals_agrees_iff.mpr hmeets
  | covers mint => exact covers_agrees
  | coversPoint pnt => exact coversPoint_agrees
  | opOf op mint1 mint2 => exact opOf_agrees_iff.mpr hmeets
  | opWith op mint => exact opWith_agrees hmeets
  | create op mint => exact create_agrees
  | createTranslation t => exact createTranslation_agrees_iff.mpr hmeets
  | cellOffset point => exact cellOffset_agrees_iff.mpr hmeets
  | cellPoint offset => exact (cellPoint_agrees_iff hmeets.1).mpr hmeets.2

/-- **Calls on domains that agree meet the condition** if they are plain. -/
theorem meets_of_agrees {call : DomainCall} (hplain : call.Plain O this)
    (heq : call.java O this = call.cpp O.value this) : call.Meets O this := by
  cases call with
  | intersectsWith mint => exact intersectsWith_agrees_iff.mp heq
  | equals mint => exact equals_agrees_iff.mp heq
  | covers mint => trivial
  | coversPoint pnt => trivial
  | opOf op mint1 mint2 => exact opOf_agrees_iff.mp heq
  | opWith op mint => exact opWith_meets hplain heq
  | create op mint => trivial
  | createTranslation t => exact createTranslation_agrees_iff.mp heq
  | cellOffset point => exact cellOffset_agrees_iff.mp heq
  | cellPoint offset => exact ⟨hplain, (cellPoint_agrees_iff hplain).mp heq⟩

end DomainCall

namespace ClientCall

variable {O : Objects}

/-- **A call does the same in the client and in C++** if it meets the condition, and a plain call only
then. -/
theorem java_agrees_iff (call : ClientCall) (h : call.Known O) :
    (call.Meets O → call.java O = call.cpp O) ∧
      (call.Plain O → call.java O = call.cpp O → call.Meets O) := by
  cases call with
  | onInterval this call =>
    have hiff := IntervalCall.agrees_iff (fun r hr => (O.sound r hr).1) h
    exact ⟨hiff.mpr, fun _ => hiff.mp⟩
  | onDomain this call => exact ⟨DomainCall.agrees_of_meets, DomainCall.meets_of_agrees⟩

/-- Two domains `[0:9]` with an interval each. -/
def twins : Objects where
  heap := ⟨2, fun _ => .fixed 0 9⟩
  mints d := if d = 0 then [0] else [1]
  sound _ _ := show (Sinterval.fixed 0 9).Sound ∧ (Sinterval.fixed 0 9).InRange by decide
  allocated d := by
    split <;> decide

/-- Two domains `[0:9]` and `[5:14]` with an interval each. -/
def overlapping : Objects where
  heap := ⟨2, fun r => if r = 0 then .fixed 0 9 else .fixed 5 14⟩
  mints d := if d = 0 then [0] else [1]
  sound := by decide
  allocated d := by
    split <;> decide

/-- The union of `[0:9]` with `[5:14]`. -/
theorem java_agrees_iff_unionWith :
    (java overlapping (.onDomain 0 (.opWith .union 1))).after =
        [.domain [some (.fixed 0 14)], .domain [some (.fixed 5 14)]] ∧
      java overlapping (.onDomain 0 (.opWith .union 1)) =
        cpp overlapping (.onDomain 0 (.opWith .union 1)) :=
  ⟨by decide, (java_agrees_iff (.onDomain 0 (.opWith .union 1)) trivial).1 fun _ =>
    show (Sinterval.fixed 0 14 = .fixed 0 9 ∨ 0 ∉ [1] ∧ 0 ∉ []) ∧ True from
      ⟨.inr ⟨by decide, by decide⟩, trivial⟩⟩
/-- **Two domains `[0:9]`** are not equal in the client. -/
theorem not_java_eq_equals :
    ¬∀ (O : Objects) (call : ClientCall), (∀ d d', (O.mints d).length = (O.mints d').length) →
      call.Known O → call.java O = call.cpp O := by
  intro h
  have hdim : ∀ d, (twins.mints d).length = 1 := fun d => by
    simp only [twins]
    split <;> rfl
  exact absurd (h twins (.onDomain 0 (.equals 1)) (fun d d' => (hdim d).trans (hdim d').symm) trivial)
    (by decide)

end ClientCall

end Rasdaman
