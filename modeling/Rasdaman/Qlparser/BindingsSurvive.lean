import Rasdaman.Qlparser.Bindings

/-!
# Qlparser/BindingsSurvive — when the list of bound data survives an evaluation

The code is compared with the abstract model step by step.  As long as the evaluation does not go astray
both do the same.  Once it has, the code ends with a list that is too long, with an exception that was
swallowed, or at a null pointer, and nothing that comes later makes up for it: no evaluation leaves a
shorter list or takes an exception back.
-/

namespace Rasdaman

open Effect

variable {V X A B : Type} {c : Computes V X}

/-! ## What every evaluation keeps -/

/-- The exceptions that leave an evaluation. -/
def raised : Except (QueryFault X) A → ℕ
  | .error (.exception _) => 1
  | _ => 0

/-- Execution objects are deleted once, and only such as were created since. -/
structure DeletesOwn (s s' : Store X) : Prop where
  created : s.created ≤ s'.created
  deleted : ∃ new, s'.deleted = new ++ s.deleted ∧ new.Nodup ∧
    ∀ n ∈ new, s.created ≤ n ∧ n < s'.created

theorem DeletesOwn.refl (s : Store X) : DeletesOwn s s := ⟨le_rfl, [], rfl, List.nodup_nil, by simp⟩

theorem DeletesOwn.trans {s s₁ s₂ : Store X} (h : DeletesOwn s s₁) (h' : DeletesOwn s₁ s₂) :
    DeletesOwn s s₂ := by
  obtain ⟨new, hnew, hnd, hin⟩ := h.deleted
  obtain ⟨new', hnew', hnd', hin'⟩ := h'.deleted
  have hle := h.created
  have hle' := h'.created
  refine ⟨Nat.le_trans hle hle', new' ++ new, by rw [hnew', hnew, List.append_assoc], ?_, ?_⟩
  · refine List.nodup_append.mpr ⟨hnd', hnd, fun a ha b hb hab => ?_⟩
    have := (hin' a ha).1
    have := (hin b hb).2
    omega
  · intro n hn
    rcases List.mem_append.mp hn with hn | hn
    · have := hin' n hn
      omega
    · have := hin n hn
      omega

/-- No evaluation leaves a shorter list, or takes an exception back. -/
structure Retained (s : Store X) (o : Except (QueryFault X) A) (s' : Store X) : Prop where
  own : DeletesOwn s s'
  length : o ≠ .error .undefined → s.dataList.length ≤ s'.dataList.length
  thrown : o ≠ .error .undefined → s.thrown.length + raised o ≤ s'.thrown.length

/-- Every run of an evaluation is of this kind. -/
def Keeping (c : Computes V X) (y : Evaluation V X A) : Prop :=
  ∀ s, Retained s (exec y c s).1 (exec y c s).2

namespace Keeping

theorem pure (a : A) : Keeping c (pure a : Evaluation V X A) :=
  fun s => ⟨.refl s, fun _ => le_rfl, fun _ => le_rfl⟩

theorem undefined : Keeping c (throw .undefined : Evaluation V X A) :=
  fun s => ⟨.refl s, fun h => absurd rfl h, fun h => absurd rfl h⟩

theorem bind {x : Evaluation V X A} {f : A → Evaluation V X B} (hx : Keeping c x)
    (hf : ∀ a, Keeping c (f a)) : Keeping c (x >>= f) := by
  intro s
  have h := hx s
  rw [exec_bind]
  rcases hrun : exec x c s with ⟨e | a, s₁⟩ <;> rw [hrun] at h
  · refine ⟨h.own, fun hne => h.length ?_, fun hne => ?_⟩
    · rintro ⟨⟩
      exact hne rfl
    · have := h.thrown (by rintro ⟨⟩; exact hne rfl)
      rcases e with e | _ <;> exact this
  · have h' := hf a s₁
    refine ⟨h.own.trans h'.own, fun hne => Nat.le_trans (h.length (by simp)) (h'.length hne), fun hne => ?_⟩
    exact Nat.le_trans (Nat.add_le_add_right (h.thrown (by simp)) _) (h'.thrown hne)

theorem read : Keeping c (read : Evaluation V X (Computes V X)) :=
  fun s => ⟨.refl s, fun _ => le_rfl, fun _ => le_rfl⟩

theorem call (f : Computes V X → ℕ → List QtData → Except X A) : Keeping c (Evaluation.call f) := by
  intro s
  simp only [Evaluation.call, exec_bind, exec_read, exec_get]
  rcases f c s.calls s.dataList with e | a
  · refine ⟨⟨le_rfl, [], rfl, List.nodup_nil, by simp⟩, fun _ => le_rfl, fun _ => ?_⟩
    simp [exec_bind, raised]
  · exact ⟨⟨le_rfl, [], rfl, List.nodup_nil, by simp⟩, fun _ => le_rfl, fun _ => le_rfl⟩

theorem setPointData (p : List ℤ) : Keeping c (Evaluation.setPointData p : Evaluation V X Unit) := by
  intro s
  simp only [Evaluation.setPointData, exec_bind, exec_get]
  split
  · next name q hlast =>
    have hne : s.dataList ≠ [] := by
      rintro h
      simp [h] at hlast
    have hlen := List.length_pos_iff.mpr hne
    refine ⟨⟨le_rfl, [], rfl, List.nodup_nil, by simp⟩, fun _ => ?_, fun _ => le_rfl⟩
    simp only [exec_set, List.length_append, List.length_dropLast, List.length_singleton]
    omega
  · exact undefined s

theorem foldlM {body : A → B → Evaluation V X A} (h : ∀ a b, Keeping c (body a b)) (l : List B)
    (a : A) : Keeping c (l.foldlM body a) := by
  induction l generalizing a with
  | nil => exact pure a
  | cons b l ih => exact bind (h a b) fun a => ih a

theorem overPoints (domain : V) {body : A → List ℤ → Evaluation V X A}
    (h : ∀ a p, Keeping c (body a p)) (a : A) : Keeping c (Evaluation.overPoints domain body a) := by
  refine bind read fun c' => bind ?_ fun a => ?_
  · exact foldlM (fun a p => bind (setPointData p) fun _ => h a p) _ _
  · rcases (c'.visits domain).2 with _ | e
    · exact pure a
    · exact call _

theorem cellValid (condOp : QtOperation) {evaluated : Evaluation V X (Option V)}
    (h : Keeping c evaluated) : Keeping c (Evaluation.cellValid condOp evaluated) := by
  unfold Evaluation.cellValid
  split
  · exact pure _
  · refine bind h fun v => ?_
    rcases v with _ | v
    · exact undefined
    · exact bind read fun _ => pure _

theorem inducedCell (myOp : Option (CellBinOp V)) (condOp : QtOperation)
    {cond cell : Evaluation V X (Option V)}
    (hcond : Keeping c cond) (hcell : Keeping c cell) (accu : Option V) :
    Keeping c (Evaluation.inducedCell myOp condOp cond cell accu) := by
  refine bind (cellValid condOp hcond) fun valid => ?_
  rcases valid with _ | _
  · exact pure _
  · refine bind hcell fun v => ?_
    rcases accu with _ | a
    · exact pure _
    · rcases v with _ | v
      · exact undefined
      · rcases myOp with _ | _
        · exact undefined
        · exact bind (call _) fun _ => pure _

end Keeping

/-! ## An object and a point, and what is run with them -/

/-- Taking the point off and deleting the object again. -/
def Store.close (s : Store X) (object : ℕ) : Store X :=
  { s with dataList := s.dataList.dropLast, deleted := object :: s.deleted }

section Framed

variable {s s₁ s₂ : Store X} {o : Except (QueryFault X) A}

theorem DeletesOwn.close (hcr : s₁.created = s.created + 1) (hdel : s₁.deleted = s.deleted)
    (h : DeletesOwn s₁ s₂) : DeletesOwn s (s₂.close s.created) := by
  obtain ⟨new, hnew, hnd, hin⟩ := h.deleted
  have hle := h.created
  refine ⟨?_, s.created :: new, ?_, ?_, ?_⟩
  · change s.created ≤ s₂.created
    omega
  · rw [Store.close, hnew, hdel]
    rfl
  · refine List.nodup_cons.mpr ⟨fun hmem => ?_, hnd⟩
    have := (hin _ hmem).1
    omega
  · intro n hn
    change s.created ≤ n ∧ n < s₂.created
    rcases List.mem_cons.mp hn with rfl | hn
    · omega
    · have := hin n hn
      omega

theorem DeletesOwn.leak (hcr : s₁.created = s.created + 1) (hdel : s₁.deleted = s.deleted)
    (h : DeletesOwn s₁ s₂) : DeletesOwn s s₂ := by
  obtain ⟨new, hnew, hnd, hin⟩ := h.deleted
  have hle := h.created
  refine ⟨by omega, new, by rw [hnew, hdel], hnd, fun n hn => ?_⟩
  have := hin n hn
  omega

/-- What is run with a point of its own and then gives it up is of the same kind. -/
theorem Retained.close (hcr : s₁.created = s.created + 1) (hdel : s₁.deleted = s.deleted)
    (hlen : s₁.dataList.length = s.dataList.length + 1) (hthrown : s₁.thrown = s.thrown)
    (h : Retained s₁ o s₂) : Retained s o (s₂.close s.created) := by
  refine ⟨h.own.close hcr hdel, fun hne => ?_, fun hne => ?_⟩
  · have := h.length hne
    simp only [Store.close, List.length_dropLast]
    omega
  · rw [← hthrown]
    exact h.thrown hne

end Framed

/-! ## Following the abstract model -/

/-- A list that is too long, an exception that was swallowed, or a null pointer. -/
def Dirty (s : Store X) (o : Except (QueryFault X) A) (s' : Store X) : Prop :=
  o ≠ .error .undefined →
    s.dataList.length < s'.dataList.length ∨ s.thrown.length + raised o < s'.thrown.length

/-- The exceptions of an outcome. -/
def exceptions : Except X A → List X
  | .ok _ => []
  | .error e => [e]

/-- The code ended like the abstract model, with a list as before. -/
structure Same (L : List QtData → Prop) (s : Store X) (x : Except X A × Record)
    (y : Except (QueryFault X) A × Store X) : Prop where
  outcome : y.1 = x.1.mapError .exception
  list : L y.2.dataList
  calls : y.2.calls = x.2.calls
  thrown : y.2.thrown = s.thrown ++ exceptions x.1

/-- The code follows the abstract model until it goes astray. -/
def Agrees (L : List QtData → Prop) (c : Computes V X) (x : Meaning V X A)
    (y : Evaluation V X A) : Prop :=
  ∀ s r, L s.dataList → s.calls = r.calls → r.astray = false →
    if (exec x c r).2.astray then Dirty s (exec y c s).1 (exec y c s).2
    else Same L s (exec x c r) (exec y c s)

/-- An evaluation that has gone astray stays so. -/
def StaysAstray (c : Computes V X) (x : Meaning V X A) : Prop :=
  ∀ r, r.astray = true → (exec x c r).2.astray = true

theorem StaysAstray.bind {x : Meaning V X A} {f : A → Meaning V X B} (hx : StaysAstray c x)
    (hf : ∀ a, StaysAstray c (f a)) : StaysAstray c (x >>= f) := by
  intro r hr
  have h := hx r hr
  rw [exec_bind]
  rcases hrun : exec x c r with ⟨e | a, r₁⟩ <;> rw [hrun] at h
  · exact h
  · exact hf a r₁ h

/-- All three together. -/
structure Follows (L : List QtData → Prop) (c : Computes V X) (x : Meaning V X A)
    (y : Evaluation V X A) : Prop where
  keeping : Keeping c y
  astray : StaysAstray c x
  agrees : Agrees L c x y

namespace Follows

variable {L : List QtData → Prop}

theorem pure (a : A) : Follows L c (pure a) (pure a) := by
  refine ⟨.pure a, fun _ h => h, fun s r hL hcalls hr => ?_⟩
  simp only [exec_pure, hr, Bool.false_eq_true, if_false]
  exact ⟨rfl, hL, hcalls, (List.append_nil _).symm⟩

theorem read : Follows L c (read : Meaning V X (Computes V X)) read := by
  refine ⟨.read, fun _ h => h, fun s r hL hcalls hr => ?_⟩
  simp only [exec_read, hr, Bool.false_eq_true, if_false]
  exact ⟨rfl, hL, hcalls, (List.append_nil _).symm⟩

theorem bind {x : Meaning V X A} {y : Evaluation V X A} {f : A → Meaning V X B}
    {g : A → Evaluation V X B} (hx : Follows L c x y) (hf : ∀ a, Follows L c (f a) (g a)) :
    Follows L c (x >>= f) (y >>= g) := by
  refine ⟨hx.keeping.bind fun a => (hf a).keeping, hx.astray.bind fun a => (hf a).astray, ?_⟩
  intro s r hL hcalls hr
  have h := hx.agrees s r hL hcalls hr
  have hkept := hx.keeping s
  rcases hxr : exec x c r with ⟨ox, r₁⟩
  rcases hys : exec y c s with ⟨oy, s₁⟩
  rw [hxr, hys] at h
  rw [hys] at hkept
  by_cases hr₁ : r₁.astray = true
  · -- the first part went astray: the second makes up for nothing
    rw [if_pos hr₁] at h
    have hastray : (exec (x >>= f) c r).2.astray = true := by
      rw [exec_bind, hxr]
      rcases ox with e | a
      · exact hr₁
      · exact (hf a).astray r₁ hr₁
    rw [if_pos hastray, exec_bind, hys]
    rcases oy with e | b
    · intro hne
      have := h (by rintro ⟨⟩; exact hne rfl)
      rcases e with e | _ <;> exact this
    · intro hne
      have hlater := (hf b).keeping s₁
      have hlen := hlater.length hne
      have hthrown := hlater.thrown hne
      have hlen₀ : s.dataList.length ≤ s₁.dataList.length := hkept.length (by simp)
      have hthrown₀ : s.thrown.length ≤ s₁.thrown.length := hkept.thrown (by simp)
      have hdirty : s.dataList.length < s₁.dataList.length ∨ s.thrown.length < s₁.thrown.length :=
        h (by simp)
      dsimp only
      omega
  · rw [if_neg hr₁] at h
    rw [exec_bind, exec_bind, hxr, hys]
    rcases ox with e | a
    · obtain rfl : oy = .error (.exception e) := h.outcome
      rw [if_neg hr₁]
      exact ⟨rfl, h.list, h.calls, h.thrown⟩
    · obtain rfl : oy = .ok a := h.outcome
      have hthrown : s₁.thrown = s.thrown := h.thrown.trans (List.append_nil _)
      have hnext := (hf a).agrees s₁ r₁ h.list h.calls (Bool.eq_false_iff.mpr hr₁)
      dsimp only
      split at hnext
      · next hastray =>
        rw [if_pos hastray]
        intro hne
        have hlen₀ := hkept.length (by simp)
        have := hnext hne
        rw [hthrown] at this
        dsimp only at hlen₀
        omega
      · next hastray =>
        rw [if_neg hastray]
        exact ⟨hnext.outcome, hnext.list, hnext.calls, hthrown ▸ hnext.thrown⟩

theorem call (l : List QtData) (f : Computes V X → ℕ → List QtData → Except X A) :
    Follows (· = l) c (Meaning.call l f) (Evaluation.call f) := by
  refine ⟨.call f, fun r hr => ?_, fun s r hL hcalls hr => ?_⟩
  · simp only [Meaning.call, exec_bind, exec_read, exec_get, exec_set]
    rcases f c r.calls l with e | a <;> exact hr
  · simp only [Meaning.call, Evaluation.call, exec_bind, exec_read, exec_get, exec_set, hL, hcalls]
    rcases f c r.calls l with e | a
    · simp only [exec_throw, exec_bind, exec_set, hr, Bool.false_eq_true, if_false]
      exact ⟨rfl, rfl, rfl, rfl⟩
    · simp only [exec_pure, exec_bind, exec_set, hr, Bool.false_eq_true, if_false]
      exact ⟨rfl, rfl, rfl, (List.append_nil _).symm⟩

/-- The list of an expression with a point of some iterator bound last. -/
def Iterating (l : List QtData) (name : String) (l' : List QtData) : Prop :=
  ∃ q, l' = l ++ [.point name q]

/-- A turn of a loop: the point is set, and what follows sees it. -/
theorem setPointData {l : List QtData} {name : String} {p : List ℤ} {x : Meaning V X A}
    {y : Evaluation V X A} (h : Follows (· = l ++ [.point name p]) c x y) :
    Follows (Iterating l name) c x (do Evaluation.setPointData p; y) := by
  refine ⟨.bind (.setPointData p) fun _ => h.keeping, h.astray, fun s r hL hcalls hr => ?_⟩
  obtain ⟨q, hq⟩ := hL
  have hset : exec (Evaluation.setPointData p : Evaluation V X Unit) c s =
      (.ok (), { s with dataList := l ++ [.point name p] }) := by
    simp [Evaluation.setPointData, exec_bind, hq]
  have h' := h.agrees { s with dataList := l ++ [.point name p] } r rfl hcalls hr
  rw [exec_bind, hset]
  split at h'
  · next hastray =>
    rw [if_pos hastray]
    intro hne
    have := h' hne
    simpa [hq] using this
  · next hastray =>
    rw [if_neg hastray]
    exact ⟨h'.outcome, ⟨p, h'.list⟩, h'.calls, h'.thrown⟩

theorem foldlM {body : A → B → Meaning V X A} {body' : A → B → Evaluation V X A}
    (h : ∀ a b, Follows L c (body a b) (body' a b)) (l : List B) (a : A) :
    Follows L c (l.foldlM body a) (l.foldlM body' a) := by
  induction l generalizing a with
  | nil => exact pure a
  | cons b l ih => exact bind (h a b) fun a => ih a

/-- A call that does not look at the list. -/
theorem call_blind (l : List QtData) (f : Computes V X → ℕ → Except X A) :
    Follows L c (Meaning.call l fun c n _ => f c n) (Evaluation.call fun c n _ => f c n) := by
  refine ⟨.call _, (call l _).astray, fun s r hL hcalls hr => ?_⟩
  simp only [Meaning.call, Evaluation.call, exec_bind, exec_read, exec_get, exec_set, hcalls]
  rcases f c r.calls with e | a
  · simp only [exec_throw, exec_bind, exec_set, hr, Bool.false_eq_true, if_false]
    exact ⟨rfl, hL, rfl, rfl⟩
  · simp only [exec_pure, exec_bind, exec_set, hr, Bool.false_eq_true, if_false]
    exact ⟨rfl, hL, rfl, (List.append_nil _).symm⟩

theorem overPoints (l : List QtData) (name : String) (domain : V) {body : A → List ℤ → Meaning V X A}
    {body' : A → List ℤ → Evaluation V X A}
    (h : ∀ a p, Follows (· = l ++ [.point name p]) c (body a p) (body' a p)) (a : A) :
    Follows (Iterating l name) c (Meaning.overPoints l domain body a)
      (Evaluation.overPoints domain body' a) := by
  refine bind read fun c' => bind ?_ fun a => ?_
  · exact foldlM (fun a p => setPointData (h a p)) _ _
  · rcases (c'.visits domain).2 with _ | e
    · exact pure a
    · exact call_blind l fun _ _ => .error e

/-- A null pointer instead of a condition. -/
theorem undefined {x : Meaning V X A} (hx : ∀ r, (exec x c r).2.astray = true) :
    Follows L c x (throw .undefined) := by
  refine ⟨.undefined, fun r _ => hx r, fun s r _ _ _ => ?_⟩
  rw [if_pos (hx r)]
  exact fun hne => absurd rfl hne

theorem cellValid (condOp : QtOperation) {x : Meaning V X (Option V)}
    {y : Evaluation V X (Option V)} (h : Follows L c x y) :
    Follows L c (Meaning.cellValid condOp x) (Evaluation.cellValid condOp y) := by
  unfold Meaning.cellValid Evaluation.cellValid
  split
  · exact pure _
  · refine bind h fun v => ?_
    rcases v with _ | v
    · exact undefined fun _ => rfl
    · exact bind read fun _ => pure _

theorem condenseCell (accuOp : V → V → V) (condOp : QtOperation) {cond cell : Meaning V X (Option V)}
    {cond' cell' : Evaluation V X (Option V)} (hcond : Follows L c cond cond')
    (hcell : Follows L c cell cell') (accu : V) :
    Follows L c (Meaning.condenseCell accuOp condOp cond cell accu)
      (Evaluation.condenseCell accuOp condOp cond' cell' accu) := by
  refine bind (cellValid condOp hcond) fun valid => ?_
  rcases valid with _ | _
  · exact pure _
  · refine bind hcell fun v => ?_
    rcases v with _ | v
    · exact pure _
    · exact pure _

end Follows

/-! ## The three constructs -/

/-- The store a condenser runs its loop from. -/
def Store.open (s : Store X) (name : String) (p : List ℤ) : Store X :=
  { s with dataList := s.dataList ++ [.point name p], created := s.created + 1 }

/-- How a scalar condenser ends, from how its loop ends. -/
theorem exec_evaluateScalarOp (name : String) (domain initVal : V)
    (body : V → List ℤ → Evaluation V X V)
    (s : Store X) : exec (Evaluation.evaluateScalarOp name domain initVal body) c s =
      match exec (Evaluation.overPoints domain body initVal) c (s.open name []) with
      | (.ok v, s₂) => (.ok (some v), s₂.close s.created)
      | (.error (.exception _), s₂) => (.error .undefined, s₂.close s.created)
      | (.error .undefined, s₂) => (.error .undefined, s₂) := by
  simp only [Evaluation.evaluateScalarOp, Evaluation.newObject, Evaluation.pushBack,
    Evaluation.catching, exec_bind, exec_get, exec_set, exec_pure, exec_modify, exec_tryCatch]
  rcases hrun : exec (Evaluation.overPoints domain body initVal) c (s.open name [])
    with ⟨(e | _) | v, s₂⟩ <;> simp only [Store.open] at hrun <;> rw [hrun] <;> rfl

/-- How an induced condenser ends, from how its loop ends. -/
theorem exec_evaluateInducedOp (name : String) (domain : V)
    (body : Option V → List ℤ → Evaluation V X (Option V)) (s : Store X) :
    exec (Evaluation.evaluateInducedOp name domain body) c s =
      match exec (Evaluation.overPoints domain body none) c (s.open name []) with
      | (.ok v, s₂) => (.ok v, s₂)
      | (.error (.exception _), s₂) => (.ok none, s₂.close s.created)
      | (.error .undefined, s₂) => (.error .undefined, s₂) := by
  simp only [Evaluation.evaluateInducedOp, Evaluation.newObject, Evaluation.pushBack,
    Evaluation.catching, exec_bind, exec_get, exec_set, exec_pure, exec_modify, exec_tryCatch]
  rcases hrun : exec (Evaluation.overPoints domain body none) c (s.open name [])
    with ⟨(e | _) | v, s₂⟩ <;> simp only [Store.open] at hrun <;> rw [hrun] <;> rfl

section Condense

variable {l : List QtData} {name : String} {domain initVal : V} {s s₂ : Store X} {o : Except (QueryFault X) A}
  {p : List ℤ}

/-- The execution object and the point of a condenser are given up where its loop has ended. -/
theorem Retained.closed (h : Retained (s.open name p) o s₂) : Retained s o (s₂.close s.created) := by
  refine Retained.close ?_ ?_ ?_ ?_ h
  all_goals simp [Store.open]

theorem Retained.leaked (h : Retained (s.open name p) o s₂) : DeletesOwn s s₂ := by
  refine DeletesOwn.leak ?_ ?_ h.own
  all_goals rfl

theorem Keeping.evaluateScalarOp {body : V → List ℤ → Evaluation V X V}
    (h : ∀ a p, Keeping c (body a p)) :
    Keeping c (Evaluation.evaluateScalarOp name domain initVal body) := by
  intro s
  have hloop := Keeping.overPoints domain h initVal (s.open name [])
  rw [exec_evaluateScalarOp]
  generalize exec (Evaluation.overPoints domain body initVal) c (s.open name []) = r at hloop
  obtain ⟨(e | _) | v, s₂⟩ := r
  · exact ⟨hloop.closed.own, fun h => absurd rfl h, fun h => absurd rfl h⟩
  · exact ⟨hloop.leaked, fun h => absurd rfl h, fun h => absurd rfl h⟩
  · exact ⟨hloop.closed.own, fun _ => hloop.closed.length (by simp),
      fun _ => hloop.closed.thrown (by simp)⟩

/-- Giving up the point does not clean up what was dirty. -/
theorem Dirty.closed (h : Dirty (s.open name p) o s₂) : Dirty s o (s₂.close s.created) := by
  intro hne
  rcases h hne with h | h
  · simp only [Store.open, List.length_append, List.length_singleton] at h
    simp only [Store.close, List.length_dropLast]
    omega
  · exact .inr h

/-- How the value of a scalar condenser comes out, from how its loop does. -/
theorem exec_scalarOp (body : V → List ℤ → Meaning V X V) (r : Record) :
    exec (Meaning.scalarOp l domain initVal body) c r =
      match exec (Meaning.overPoints l domain body initVal) c r with
      | (.ok v, r') => (.ok (some v), r')
      | (.error e, r') => (.error e, { r' with astray := true }) := by
  simp only [Meaning.scalarOp, Meaning.unlessThrown, Meaning.goAstray, exec_bind, exec_tryCatch]
  rcases exec (Meaning.overPoints l domain body initVal) c r with ⟨e | v, r'⟩ <;> rfl

/-- **A scalar condenser follows the abstract model until a cell throws.** -/
theorem Follows.scalarOp {body : V → List ℤ → Meaning V X V}
    {body' : V → List ℤ → Evaluation V X V}
    (h : ∀ a p, Follows (· = l ++ [.point name p]) c (body a p) (body' a p)) :
    Follows (· = l) c (Meaning.scalarOp l domain initVal body)
      (Evaluation.evaluateScalarOp name domain initVal body') := by
  have hloop := Follows.overPoints l name domain h initVal
  refine ⟨.evaluateScalarOp fun a p => (h a p).keeping, fun r hr => ?_, fun s r hL hcalls hr => ?_⟩
  · have hastray := hloop.astray r hr
    rw [exec_scalarOp]
    generalize exec (Meaning.overPoints l domain body initVal) c r = x at hastray
    obtain ⟨e | v, r'⟩ := x
    · rfl
    · exact hastray
  · have hagrees := hloop.agrees (s.open name []) r ⟨[], by rw [Store.open, hL]⟩ hcalls hr
    rw [exec_scalarOp, exec_evaluateScalarOp]
    generalize exec (Meaning.overPoints l domain body initVal) c r = x at hagrees
    generalize exec (Evaluation.overPoints domain body' initVal) c (s.open name []) = y
      at hagrees
    obtain ⟨ox, r'⟩ := x
    obtain ⟨oy, s₂⟩ := y
    by_cases hastray : r'.astray = true
    · rw [if_pos hastray] at hagrees
      have hdirty : Dirty s oy (s₂.close s.created) := hagrees.closed
      have hflag : (match (ox, r') with
          | (.ok v, r') => (.ok (some v), r')
          | (.error e, r') => (.error e, { r' with astray := true }) :
            Except X (Option V) × Record).2.astray = true := by
        rcases ox with e | v
        · rfl
        · exact hastray
      rw [if_pos hflag]
      rcases oy with (e | _) | v
      · exact fun h => absurd rfl h
      · exact fun h => absurd rfl h
      · exact fun _ => hdirty (by simp)
    · rw [if_neg hastray] at hagrees
      obtain ⟨q, hq⟩ := hagrees.list
      rcases ox with e | v
      · obtain rfl : oy = .error (.exception e) := hagrees.outcome
        rw [if_pos rfl]
        exact fun h => absurd rfl h
      · obtain rfl : oy = .ok v := hagrees.outcome
        rw [if_neg hastray]
        refine ⟨rfl, ?_, hagrees.calls, hagrees.thrown⟩
        simp only [Store.close]
        rw [hq, List.dropLast_concat]

/-- **An induced condenser leaves its point on the list, or swallows an exception.** -/
theorem Dirty.evaluateInducedOp (name : String) (domain : V)
    {body : Option V → List ℤ → Evaluation V X (Option V)} (h : ∀ a p, Keeping c (body a p)) (s : Store X) :
    Retained s (exec (Evaluation.evaluateInducedOp name domain body) c s).1
        (exec (Evaluation.evaluateInducedOp name domain body) c s).2 ∧
      Dirty s (exec (Evaluation.evaluateInducedOp name domain body) c s).1
        (exec (Evaluation.evaluateInducedOp name domain body) c s).2 := by
  have hloop := Keeping.overPoints domain h none (s.open name [])
  rw [exec_evaluateInducedOp]
  generalize exec (Evaluation.overPoints domain body none) c (s.open name []) = r at hloop
  obtain ⟨(e | _) | v, s₂⟩ := r
  · have hthrown : s.thrown.length + 1 ≤ s₂.thrown.length := hloop.closed.thrown (by simp)
    refine ⟨⟨hloop.closed.own, fun _ => hloop.closed.length (by simp), fun _ => ?_⟩, fun _ => .inr ?_⟩
    · exact Nat.le_trans (Nat.le_succ _) hthrown
    · exact hthrown
  · exact ⟨⟨hloop.leaked, fun h => absurd rfl h, fun h => absurd rfl h⟩, fun h => absurd rfl h⟩
  · have hlen := hloop.length (by simp)
    simp only [Store.open, List.length_append, List.length_singleton] at hlen
    exact ⟨⟨hloop.leaked, fun _ => Nat.le_of_succ_le hlen, fun _ => hloop.thrown (by simp)⟩,
      fun _ => .inl hlen⟩

end Condense

section Marray

variable {l : List QtData} {name : String} {domain : V}

/-- How an `marray` ends, from how its loop ends. -/
theorem exec_evaluateMarray (name : String) (domain : V) (cell : Evaluation V X (Option V))
    (s : Store X) : exec (Evaluation.evaluateMarray name domain cell) c s =
      match c.origin domain with
      | .error e =>
        (.error (.exception e), { s with calls := s.calls + 1, thrown := s.thrown ++ [e] })
      | .ok p =>
        match c.newTile (s.calls + 1) domain with
        | .error e => (.error (.exception e),
            { s with
              dataList := s.dataList ++ [.point name p]
              calls := s.calls + 2
              thrown := s.thrown ++ [e] })
        | .ok _ =>
          match exec (Evaluation.overPoints domain (fun cells _ => do pure (cells ++ [← cell])) []) c
            ({ s with calls := s.calls + 2 }.open name p) with
          | (.ok cells, s₂) => (.ok (some (c.mdd domain cells)), s₂.close s.created)
          | (.error (.exception e), s₂) => (.error (.exception e), s₂.close s.created)
          | (.error .undefined, s₂) => (.error .undefined, s₂) := by
  simp only [Evaluation.evaluateMarray, Evaluation.call, Evaluation.pushBack, Evaluation.newObject,
    Evaluation.catching, exec_bind, exec_get, exec_read]
  rcases c.origin domain with e | p
  · rfl
  · simp only [exec_bind, exec_set, exec_pure, exec_modify]
    rcases c.newTile (s.calls + 1) domain with e | _
    · rfl
    · simp only [exec_bind, exec_set, exec_pure, exec_tryCatch, Store.open]
      generalize exec (Evaluation.overPoints domain _ []) c _ = y
      obtain ⟨(e | _) | v, s₂⟩ := y <;> rfl

/-- How the value of an `marray` comes out, from how its loop does. -/
theorem exec_marrayOp (cell : List ℤ → Meaning V X (Option V)) (r : Record) :
    exec (Meaning.marrayOp l domain cell) c r =
      match c.origin domain with
      | .error e => (.error e, { r with calls := r.calls + 1 })
      | .ok _ =>
        match c.newTile (r.calls + 1) domain with
        | .error e => (.error e, { calls := r.calls + 2, astray := true })
        | .ok _ =>
          match exec (Meaning.overPoints l domain (fun cells p => do pure (cells ++ [← cell p])) [])
            c { r with calls := r.calls + 2 } with
          | (.ok cells, r') => (.ok (some (c.mdd domain cells)), r')
          | (.error e, r') => (.error e, r') := by
  simp only [Meaning.marrayOp, Meaning.call, Meaning.unlessThrown, Meaning.goAstray,
    exec_bind, exec_get, exec_read, exec_set]
  rcases c.origin domain with e | p
  · rfl
  · simp only [exec_bind, exec_set, exec_pure, exec_get, exec_read, exec_tryCatch]
    rcases c.newTile (r.calls + 1) domain with e | _
    · rfl
    · simp only [exec_pure]
      rcases exec (Meaning.overPoints l domain (fun cells p => do pure (cells ++ [← cell p])) []) c
        { r with calls := r.calls + 2 } with ⟨e | v, r'⟩ <;> rfl

/-- **An `marray` follows the abstract model, unless it does not get its tile.** -/
theorem Follows.marrayOp {cell : List ℤ → Meaning V X (Option V)}
    {cell' : Evaluation V X (Option V)}
    (h : ∀ p, Follows (· = l ++ [.point name p]) c (cell p) cell') :
    Follows (· = l) c (Meaning.marrayOp l domain cell)
      (Evaluation.evaluateMarray name domain cell') := by
  have hloop := Follows.overPoints l name domain
    (fun (cells : List (Option V)) p => (h p).bind fun v => Follows.pure (cells ++ [v])) []
  refine ⟨fun s => ?_, fun r hr => ?_, fun s r hL hcalls hr => ?_⟩
  · rw [exec_evaluateMarray]
    rcases c.origin domain with e | p
    · exact ⟨⟨le_rfl, [], rfl, List.nodup_nil, by simp⟩, fun _ => le_rfl, fun _ => by simp [raised]⟩
    · rcases c.newTile (s.calls + 1) domain with e | _
      · exact ⟨⟨le_rfl, [], rfl, List.nodup_nil, by simp⟩, fun _ => by simp, fun _ => by simp [raised]⟩
      · have hkept := hloop.keeping ({ s with calls := s.calls + 2 }.open name p)
        dsimp only
        generalize exec (Evaluation.overPoints domain _ []) c _ = y at hkept
        have hclosed := hkept.closed.own
        have hleaked := hkept.leaked
        obtain ⟨(e | _) | v, s₂⟩ := y
        · exact ⟨⟨hclosed.created, hclosed.deleted⟩, fun _ => hkept.closed.length (by simp),
            fun _ => hkept.closed.thrown (by simp)⟩
        · exact ⟨⟨hleaked.created, hleaked.deleted⟩, fun h => absurd rfl h, fun h => absurd rfl h⟩
        · exact ⟨⟨hclosed.created, hclosed.deleted⟩, fun _ => hkept.closed.length (by simp),
            fun _ => hkept.closed.thrown (by simp)⟩
  · rw [exec_marrayOp]
    rcases c.origin domain with e | p
    · exact hr
    · rcases c.newTile (r.calls + 1) domain with e | _
      · rfl
      · have hastray := hloop.astray { r with calls := r.calls + 2 } hr
        dsimp only
        generalize exec (Meaning.overPoints l domain _ []) c _ = x at hastray
        obtain ⟨e | v, r'⟩ := x <;> exact hastray
  · rw [exec_marrayOp, exec_evaluateMarray, hcalls]
    rcases c.origin domain with e | p
    · rw [if_neg (by simp [hr])]
      exact ⟨rfl, hL, rfl, rfl⟩
    · rcases c.newTile (r.calls + 1) domain with e | _
      · exact fun _ => .inl (by simp)
      · have hagrees := hloop.agrees ({ s with calls := r.calls + 2 }.open name p)
          { r with calls := r.calls + 2 } ⟨p, by rw [Store.open, hL]⟩ rfl hr
        dsimp only
        generalize exec (Meaning.overPoints l domain _ []) c _ = x at hagrees
        generalize exec (Evaluation.overPoints domain _ []) c _ = y at hagrees
        obtain ⟨ox, r'⟩ := x
        obtain ⟨oy, s₂⟩ := y
        by_cases hastray : r'.astray = true
        · rw [if_pos hastray] at hagrees
          have hdirty : Dirty s oy (s₂.close s.created) := hagrees.closed
          have hflag : (match (ox, r') with
              | (.ok cells, r') => (.ok (some (c.mdd domain cells)), r')
              | (.error e, r') => (.error e, r') : Except X (Option V) × Record).2.astray = true := by
            rcases ox with e | v <;> exact hastray
          rw [if_pos hflag]
          rcases oy with (e | _) | v
          · exact fun _ => hdirty (by simp)
          · exact fun h => absurd rfl h
          · exact fun _ => hdirty (by simp)
        · rw [if_neg hastray] at hagrees
          obtain ⟨q, hq⟩ := hagrees.list
          have hlist : (s₂.close s.created).dataList = l := by
            simp only [Store.close]
            rw [hq, List.dropLast_concat]
          rcases ox with e | v
          · obtain rfl : oy = .error (.exception e) := hagrees.outcome
            rw [if_neg hastray]
            exact ⟨rfl, hlist, hagrees.calls, hagrees.thrown⟩
          · obtain rfl : oy = .ok v := hagrees.outcome
            rw [if_neg hastray]
            exact ⟨rfl, hlist, hagrees.calls, hagrees.thrown⟩

end Marray

/-! ## Whole expressions -/

/-- **An evaluation follows the abstract model until it goes astray.** -/
theorem follows_evaluate (c : Computes V X) (e : QtOperation) (l : List QtData) :
    Follows (· = l) c (e.denote l) e.evaluate := by
  induction e generalizing l with
  | null => exact .pure none
  | leaf node => exact .call l _
  | unary node input ih =>
    refine (ih l).bind fun v => ?_
    rcases v with _ | v
    · exact .pure none
    · exact .call l _
  | binary node input1 input2 ih₁ ih₂ =>
    refine (ih₁ l).bind fun v => (ih₂ l).bind fun w => ?_
    rcases v with _ | v <;> rcases w with _ | w
    · exact .pure none
    · exact .pure none
    · exact .pure none
    · exact .call l _
  | marray name input1 input2 ih₁ ih₂ =>
    have hdomain : Follows (· = l) c (if input1.isNull then input2.denote l else input1.denote l)
        (if input1.isNull then input2.evaluate else input1.evaluate) := by
      split
      · exact ih₂ l
      · exact ih₁ l
    refine hdomain.bind fun domain => ?_
    rcases domain with _ | domain
    · exact .pure none
    · exact .marrayOp fun p => ih₂ _
  | condense node induced name input1 input2 condOp ih₁ ih₂ ih₃ =>
    have hdomain : Follows (· = l) c (if input1.isNull then input2.denote l else input1.denote l)
        (if input1.isNull then input2.evaluate else input1.evaluate) := by
      split
      · exact ih₂ l
      · exact ih₁ l
    refine hdomain.bind fun domain => ?_
    rcases domain with _ | domain
    · exact .pure none
    refine Follows.read.bind fun c' => ?_
    rcases induced with _ | _
    · rcases c'.getBinaryOp node with _ | accuOp
      · exact .undefined fun _ => rfl
      · exact .scalarOp fun accu p => .condenseCell accuOp.accuOp condOp (ih₃ _) (ih₂ _) accu
    · have hinduced := Dirty.evaluateInducedOp name domain (c := c) fun accu _ =>
        Keeping.inducedCell (c'.getBinaryOp node) condOp (ih₃ l).keeping (ih₂ l).keeping accu
      exact ⟨fun s => (hinduced s).1, fun _ _ => rfl, fun s _ _ _ _ => (hinduced s).2⟩

/-- What a clear evaluation returns or throws is what the abstract model says. -/
theorem evaluate_eq_denote {e : QtOperation} {l : List QtData} (h : StaysClear c e l) :
    (exec e.evaluate c { dataList := l }).1 = (exec (e.denote l) c {}).1.mapError .exception := by
  have hsame := (follows_evaluate c e l).agrees { dataList := l } {} rfl rfl rfl
  rw [if_neg (Bool.eq_false_iff.mp h)] at hsame
  exact hsame.outcome

/-- **The binding list survives an evaluation exactly when it stays clear** of induced condensers, of
condensers without an operation on their cells, of exceptions in the cells of scalar ones, and of an
`marray` that does not get its tile. -/
theorem binding_list_survives_iff (c : Computes V X) (e : QtOperation) (l : List QtData) :
    Survives c e l ↔ StaysClear c e l := by
  have hagrees := (follows_evaluate c e l).agrees { dataList := l } {} rfl rfl rfl
  have hkept := (follows_evaluate c e l).keeping { dataList := l }
  unfold Survives StaysClear
  dsimp only
  generalize exec (e.denote l) c {} = x at hagrees
  generalize exec e.evaluate c { dataList := l } = y at hagrees hkept
  obtain ⟨ox, r⟩ := x
  obtain ⟨oy, s⟩ := y
  obtain ⟨new, hnew, hnodup, -⟩ := hkept.own.deleted
  have hdeleted : s.deleted.Nodup := by
    rw [hnew, List.append_nil]
    exact hnodup
  by_cases hastray : r.astray = true
  · rw [if_pos hastray] at hagrees
    refine iff_of_false ?_ (by simp [hastray])
    rintro ⟨hlist, -, hout⟩
    rcases oy with (e | _) | v
    · have hdirty := hagrees (by simp)
      dsimp only at hlist hout
      simp [hlist, hout, raised] at hdirty
    · exact hout
    · have hdirty := hagrees (by simp)
      dsimp only at hlist hout
      simp [hlist, hout, raised] at hdirty
  · rw [if_neg hastray] at hagrees
    refine iff_of_true ⟨hagrees.list, hdeleted, ?_⟩ (Bool.eq_false_iff.mpr hastray)
    have hthrown := hagrees.thrown
    rcases ox with e | v
    · obtain rfl : oy = .error (.exception e) := hagrees.outcome
      exact hthrown
    · obtain rfl : oy = .ok v := hagrees.outcome
      exact hthrown

/-- Everything computes, over domains of one point. -/
def onePoint : Computes Unit Unit where
  compute _ _ _ _ := .ok (some ())
  origin _ := .ok [0]
  newTile _ _ := .ok ()
  visits _ := ([[0]], none)
  mdd _ _ := ()
  unsignedValue _ := true
  getBinaryOp _ := some ⟨(), fun _ _ => ()⟩
  computeBinaryMDDOp _ _ _ := .ok ()

/-- `condense + over i in … using` an array: the point of `i` stays on the list. -/
theorem induced_point_stays :
    ¬∀ (e : QtOperation) (l : List QtData), Survives onePoint e l := by
  intro h
  have hlist := (h (.condense 2 true "i" (.leaf 0) (.leaf 1) .null) []).1
  exact absurd hlist (by decide)

end Rasdaman
