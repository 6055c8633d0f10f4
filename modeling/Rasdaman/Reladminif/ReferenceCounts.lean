import Rasdaman.Reladminif.DBRef

/-!
# Reladminif/ReferenceCounts — reference counting keeps referenced objects alive

With pointer caching on, the count of an object is the number of references to it, and an object is deleted
when it loses the last one.  There are two ways to break this: an assignment lets the old object go before it
looks at the new one, which may be the same, and a copy of an object starts with the count of the original.
`reference_counts_iff` says that there is no other.
-/

namespace Rasdaman

open OIdType Effect Machine

namespace RefWorld

variable (w : RefWorld)

/-- The number of references whose `object` points to an address. -/
def count (a : ℕ) : ℕ := References.count w.names (fun r => (w.ref r).object) a

/-- An object that stays when its last reference goes: it is cached, or persistent in a read-only
transaction. -/
def Kept (o : DBObject) : Prop :=
  o.isCached = true ∨ (w.memory.server.readOnlyTA = true ∧ o.isPersistent = true)

instance (o : DBObject) : Decidable (w.Kept o) := by
  unfold Kept
  infer_instance

/-- The world after an object lost a reference. -/
def drop (a : ℕ) (o : DBObject) : RefWorld :=
  let o' := { o with referenceCount := o.referenceCount - 1 }
  if o.referenceCount = 1 ∧ ¬ w.Kept o then { w with memory := (w.setObject a o').memory.delete a o' }
  else w.setObject a o'

/-- The world after an object got a reference. -/
def gain (a : ℕ) (o : DBObject) : RefWorld :=
  w.setObject a { o with referenceCount := o.referenceCount + 1 }

end RefWorld

open RefWorld DBObject DBRef

variable {w : RefWorld} {a r s : ℕ} {o : DBObject}

/-! ## What the operations do -/

theorem exec_fetch (h : w.memory.objects a = some o) : exec (fetch a) () w = (.ok o, w) := by
  simp [fetch, exec_bind, h]

theorem exec_fetch_none (h : w.memory.objects a = none) :
    exec (fetch a) () w = (.error .outside, w) := by
  simp [fetch, exec_bind, h]

theorem objects_setObject (w : RefWorld) (a : ℕ) (o : DBObject) :
    (w.setObject a o).memory.objects a = some o := Function.update_self _ _ _

theorem exec_increment (h : w.memory.objects a = some o) :
    exec (incrementReferenceCount a) () w = (.ok (), w.gain a o) := by
  simp [incrementReferenceCount, exec_bind, exec_fetch h, gain]

theorem exec_destroy (h : w.memory.objects a = some o) :
    exec (destroy a) () w = (.ok (), if o.referenceCount = 0 ∧ ¬ w.Kept o then
      { w with memory := w.memory.delete a o } else w) := by
  by_cases hzero : o.referenceCount = 0
  · cases hcached : o.isCached
    · cases hro : w.memory.server.readOnlyTA
      · simp [destroy, exec_bind, exec_fetch h, hzero, hcached, hro, Kept]
      · cases hper : o.isPersistent <;>
          simp [destroy, exec_bind, exec_fetch h, hzero, hcached, hro, hper, Kept]
    · simp [destroy, exec_bind, exec_fetch h, hzero, hcached, Kept]
  · simp [destroy, exec_bind, exec_fetch h, hzero]

theorem exec_decrement (h : w.memory.objects a = some o) :
    exec (decrementReferenceCount a) () w = (.ok (), w.drop a o) := by
  have hset := objects_setObject w a { o with referenceCount := o.referenceCount - 1 }
  by_cases hlast : o.referenceCount = 1
  · have hdestroy := exec_destroy hset
    simp only [hlast, sub_self, true_and] at hdestroy
    simp [decrementReferenceCount, exec_bind, exec_fetch h, hlast, hdestroy, drop]
    rfl
  · have hne : ¬ o.referenceCount - 1 = 0 := by omega
    simp [decrementReferenceCount, exec_bind, exec_fetch h, hne, drop, hlast]

theorem drop_ref (w : RefWorld) (a : ℕ) (o : DBObject) :
    (w.drop a o).ref = w.ref ∧ (w.drop a o).names = w.names ∧
      (w.drop a o).pointerCaching = w.pointerCaching := by
  rw [drop]
  split <;> exact ⟨rfl, rfl, rfl⟩

/-- The world after a reference let its object go. -/
def RefWorld.lost (w : RefWorld) (d : DBRef) : RefWorld :=
  match d.object with
  | some a => (w.memory.objects a).elim w (w.drop a)
  | none => w

theorem lost_eq (w : RefWorld) (d : DBRef) : (w.lost d).ref = w.ref ∧ (w.lost d).names = w.names ∧
    (w.lost d).pointerCaching = w.pointerCaching := by
  rw [lost]
  split
  · next a _ =>
    cases w.memory.objects a with
    | none => exact ⟨rfl, rfl, rfl⟩
    | some o => exact drop_ref w a o
  · exact ⟨rfl, rfl, rfl⟩

/-- Pointers of references are to objects that exist. -/
def Alive (w : RefWorld) (d : DBRef) : Prop := ∀ a, d.object = some a → w.memory.objects a ≠ none

theorem exec_letGo {d : DBRef} (hcaching : w.pointerCaching = true) (hd : Alive w d) :
    exec (letGo d) () w = (.ok (), w.lost d) := by
  rw [letGo, lost]
  cases hobj : d.object with
  | none => rfl
  | some a =>
    obtain ⟨o, ho⟩ := Option.ne_none_iff_exists'.mp (hd a hobj)
    simp [exec_bind, hcaching, exec_decrement ho, ho]

theorem exec_ofRef {d : DBRef} (hcaching : w.pointerCaching = true) (hd : Alive w d) :
    exec (ofRef d) () w = match d.object with
      | some a => (w.memory.objects a).elim (.error .outside, w) fun o =>
        (.ok ⟨some a, o.myOId, d.pointerValid⟩, w.gain a o)
      | none => (.ok ⟨none, d.objId, d.pointerValid⟩, w) := by
  cases hobj : d.object with
  | none => simp [ofRef, exec_bind, hcaching, hobj, -bind_pure_comp]
  | some a =>
    obtain ⟨o, ho⟩ := Option.ne_none_iff_exists'.mp (hd a hobj)
    simp [ofRef, exec_bind, hcaching, hobj, exec_fetch ho, exec_increment ho, ho, -bind_pure_comp]

/-! ## The invariant -/

/-- **The invariant** of runs in which counting works. -/
structure RefOk (w : RefWorld) : Prop where
  counted : ∀ a o, w.memory.objects a = some o → o.referenceCount = w.count a
  alive : ∀ r ∈ w.names, Alive w (w.ref r)
  maps : ∀ id a, w.memory.maps id = some a →
    id.oidtype.hasMap = true ∧ ∃ o, w.memory.objects a = some o ∧ o.myOId = id
  caching : w.pointerCaching = true

/-- An object is deleted exactly when it loses its last reference and does not stay; `loads` says which
objects get a reference in between. -/
def Deleted (loads : ℕ → Prop) (w w' : RefWorld) : Prop :=
  ∀ a o, w.memory.objects a = some o → (w'.memory.objects a = none ↔
    (0 < w.count a ∨ loads a) ∧ w'.count a = 0 ∧ ¬ w.Kept o)

theorem count_setRef (w : RefWorld) (r : ℕ) (d : DBRef) (hr : r ∈ w.names) (a : ℕ) :
    (w.setRef r d).count a + (if (w.ref r).object = some a then 1 else 0) =
      w.count a + if d.object = some a then 1 else 0 := by
  have hset : (w.setRef r d).count a = References.count (w.names.erase r)
      (fun s => (w.ref s).object) a + if d.object = some a then 1 else 0 := by
    rw [count, References.count_erase _ _ (show r ∈ (w.setRef r d).names from hr)]
    congr 1
    · refine References.count_congr _ _ fun s hs => ?_
      simp [setRef, Finset.ne_of_mem_erase hs]
    · simp [setRef]
  rw [hset, count, References.count_erase _ _ hr]
  omega

theorem count_drop (w : RefWorld) (a : ℕ) (o : DBObject) (b : ℕ) : (w.drop a o).count b = w.count b := by
  obtain ⟨href, hnames, -⟩ := drop_ref w a o
  rw [count, count, href, hnames]

theorem objects_drop_ne (w : RefWorld) {a b : ℕ} (o : DBObject) (hba : b ≠ a) :
    (w.drop a o).memory.objects b = w.memory.objects b := by
  rw [drop]
  split
  · rw [(ObjectMemory.delete_eq _ a _).1]
    simp [setObject, ObjectMemory.setObject, hba]
  · simp [setObject, ObjectMemory.setObject, hba]

/-- The object that lost a reference. -/
theorem objects_drop_self (w : RefWorld) (a : ℕ) (o : DBObject) :
    (w.drop a o).memory.objects a = if o.referenceCount = 1 ∧ ¬ w.Kept o then none
      else some { o with referenceCount := o.referenceCount - 1 } := by
  rw [drop]
  split
  · rw [(ObjectMemory.delete_eq _ a _).1]
    exact Function.update_self _ _ _
  · exact Function.update_self _ _ _

theorem maps_drop (w : RefWorld) (a : ℕ) (o : DBObject) (id : TypedOId) (b : ℕ)
    (h : (w.drop a o).memory.maps id = some b) : w.memory.maps id = some b ∧
      (o.referenceCount = 1 ∧ ¬ w.Kept o → id.oidtype.hasMap = true → id ≠ o.myOId) := by
  rw [drop] at h
  split at h
  · rw [ObjectMemory.maps_delete] at h
    split at h
    · exact nomatch h
    · next hne => exact ⟨h, fun _ hmap hid => hne ⟨hid, hid ▸ hmap⟩⟩
  · next hne => exact ⟨h, fun hdel => absurd hdel hne⟩

/-- No object gets a reference in between. -/
abbrev Deleted₀ := Deleted fun _ => False

/-- **A reference lets its object go**: counts stay right, and the object goes with its last reference. -/
theorem RefOk.drop (h : RefOk w) (hr : r ∈ w.names) (hra : (w.ref r).object = some a)
    (ha : w.memory.objects a = some o) {d : DBRef} (hd : d.object = none) :
    RefOk ((w.drop a o).setRef r d) ∧ Deleted₀ w ((w.drop a o).setRef r d) := by
  obtain ⟨href, hnames, hcaching⟩ := drop_ref w a o
  have hcount : ∀ b, ((w.drop a o).setRef r d).count b + (if a = b then 1 else 0) = w.count b := by
    intro b
    have hset := count_setRef (w.drop a o) r d (by rw [hnames]; exact hr) b
    rw [href, hra, hd, count_drop] at hset
    simpa using hset
  have hself := hcount a
  rw [if_pos rfl] at hself
  have hother : ∀ b, b ≠ a → ((w.drop a o).setRef r d).count b = w.count b := by
    intro b hba
    have hb := hcount b
    rw [if_neg (Ne.symm hba)] at hb
    omega
  have hobjA : ((w.drop a o).setRef r d).memory.objects a = _ := objects_drop_self w a o
  have hobj : ∀ b, b ≠ a → ((w.drop a o).setRef r d).memory.objects b = w.memory.objects b :=
    fun b hba => objects_drop_ne w o hba
  have hrc := h.counted a o ha
  refine ⟨⟨fun b o' hb => ?_, fun s hs b hsb hb => ?_, fun id b hmap => ?_, hcaching.trans h.caching⟩, ?_⟩
  · by_cases hba : b = a
    · subst hba
      rw [hobjA] at hb
      split at hb
      · exact nomatch hb
      · rw [← Option.some.inj hb]
        dsimp only
        omega
    · rw [hobj b hba] at hb
      rw [hother b hba]
      exact h.counted b o' hb
  · have hsr : s ≠ r := by
      rintro rfl
      rw [setRef_self, hd] at hsb
      exact nomatch hsb
    have hsb' : (w.ref s).object = some b := by
      rw [setRef_ne _ _ hsr, href] at hsb
      exact hsb
    have hs' : s ∈ w.names := by
      rw [← hnames]
      exact hs
    by_cases hba : b = a
    · subst hba
      -- the other reference counts as well, so this was not the last one
      have htwo : 2 ≤ w.count b := References.two_le_count hs' hr hsr hsb' hra
      rw [hobjA, if_neg (by omega)] at hb
      exact nomatch hb
    · exact h.alive s hs' b hsb' ((hobj b hba).symm.trans hb)
  · obtain ⟨hmap', hdel⟩ := maps_drop w a o id b hmap
    obtain ⟨hhas, o', hb, hid⟩ := h.maps id b hmap'
    refine ⟨hhas, ?_⟩
    by_cases hba : b = a
    · subst hba
      obtain rfl := Option.some.inj (ha.symm.trans hb)
      rw [hobjA]
      split
      · next hgone => exact absurd hid.symm (hdel hgone hhas)
      · exact ⟨_, rfl, hid⟩
    · exact ⟨o', (hobj b hba).trans hb, hid⟩
  · intro b o' hb
    by_cases hba : b = a
    · subst hba
      obtain rfl := Option.some.inj (ha.symm.trans hb)
      rw [hobjA, or_false]
      split
      · next hgone => exact ⟨fun _ => ⟨by omega, by omega, hgone.2⟩, fun _ => rfl⟩
      · next hstays =>
        refine ⟨nofun, fun ⟨_, hzero, hkept⟩ => absurd ⟨by omega, hkept⟩ hstays⟩
    · rw [hobj b hba, hb, hother b hba, or_false]
      exact ⟨nofun, fun ⟨hpos, hzero, _⟩ => absurd hpos (by omega)⟩

theorem objects_gain_ne (w : RefWorld) {a b : ℕ} (o : DBObject) (hba : b ≠ a) :
    (w.gain a o).memory.objects b = w.memory.objects b := Function.update_of_ne hba _ _

/-- Nothing is deleted where every object stays and keeps its references. -/
theorem Deleted.gain {loads : ℕ → Prop} {w w₁ w₂ : RefWorld} (h : Deleted loads w w₁) {b : ℕ}
    (hb : w₁.memory.objects b ≠ none)
    (hobj : ∀ a, w₂.memory.objects a = none ↔ w₁.memory.objects a = none)
    (hcount : ∀ a, w₂.count a = w₁.count a + if b = a then 1 else 0) : Deleted loads w w₂ := by
  intro a o ha
  rw [hobj, hcount]
  by_cases hba : b = a
  · subst hba
    rw [if_pos rfl]
    exact ⟨fun hnone => absurd hnone hb, fun ⟨_, hzero, _⟩ => absurd hzero (Nat.succ_ne_zero _)⟩
  · rw [if_neg hba]
    exact h a o ha

theorem count_gain (w : RefWorld) (o : DBObject) (hr : r ∈ w.names) (hnone : (w.ref r).object = none)
    {d : DBRef} (hd : d.object = some a) (b : ℕ) :
    ((w.gain a o).setRef r d).count b = w.count b + if a = b then 1 else 0 := by
  have hset := count_setRef (w.gain a o) r d hr b
  have href : (w.gain a o).ref r = w.ref r := rfl
  have hsame : (w.gain a o).count b = w.count b := rfl
  rw [hd, href, hnone] at hset
  simpa [hsame] using hset

/-- **A reference without an object gets one.** -/
theorem RefOk.gain (h : RefOk w) (hr : r ∈ w.names) (hnone : (w.ref r).object = none)
    (ha : w.memory.objects a = some o) {d : DBRef} (hd : d.object = some a) :
    RefOk ((w.gain a o).setRef r d) ∧
      ∀ {loads : ℕ → Prop} {w₀ : RefWorld}, Deleted loads w₀ w →
        Deleted loads w₀ ((w.gain a o).setRef r d) := by
  have hcount := count_gain w o hr hnone hd
  have hself : ((w.gain a o).setRef r d).memory.objects a =
      some { o with referenceCount := o.referenceCount + 1 } := Function.update_self _ _ _
  have hobj : ∀ b, b ≠ a → ((w.gain a o).setRef r d).memory.objects b = w.memory.objects b :=
    fun b hba => objects_gain_ne w o hba
  have hlive : ∀ b, ((w.gain a o).setRef r d).memory.objects b = none ↔ w.memory.objects b = none := by
    intro b
    by_cases hba : b = a
    · subst hba
      rw [hself, ha]
      exact ⟨nofun, nofun⟩
    · rw [hobj b hba]
  refine ⟨⟨fun b o' hb => ?_, fun s hs b hsb hb => ?_, fun id b hmap => ?_, h.caching⟩, fun hdel => ?_⟩
  · rw [hcount]
    by_cases hba : b = a
    · subst hba
      rw [hself] at hb
      rw [← Option.some.inj hb, if_pos rfl]
      have hrc := h.counted b o ha
      dsimp only
      omega
    · rw [hobj b hba] at hb
      rw [if_neg (Ne.symm hba)]
      exact h.counted b o' hb
  · by_cases hsr : s = r
    · subst hsr
      rw [setRef_self, hd] at hsb
      obtain rfl := Option.some.inj hsb
      exact nomatch hself.symm.trans hb
    · rw [setRef_ne _ _ hsr] at hsb
      exact h.alive s hs b hsb ((hlive b).mp hb)
  · obtain ⟨hhas, o', hb, hid⟩ := h.maps id b hmap
    refine ⟨hhas, ?_⟩
    by_cases hba : b = a
    · subst hba
      obtain rfl := Option.some.inj (ha.symm.trans hb)
      exact ⟨_, hself, hid⟩
    · exact ⟨o', (hobj b hba).trans hb, hid⟩
  · exact hdel.gain (by rw [ha]; exact nofun) hlive hcount

/-- A reference keeps its object and gets other fields. -/
theorem RefOk.setRef (h : RefOk w) (hr : r ∈ w.names) {d : DBRef} (hd : d.object = (w.ref r).object) :
    RefOk (w.setRef r d) ∧ ∀ b, (w.setRef r d).count b = w.count b := by
  have hcount : ∀ b, (w.setRef r d).count b = w.count b := by
    intro b
    have hset := count_setRef w r d hr b
    rw [hd] at hset
    omega
  refine ⟨⟨fun b o' hb => ?_, fun s hs b hsb => ?_, h.maps, h.caching⟩, hcount⟩
  · rw [hcount]
    exact h.counted b o' hb
  · refine h.alive s hs b ?_
    by_cases hsr : s = r
    · subst hsr
      rw [← hd]
      simpa using hsb
    · rwa [setRef_ne _ _ hsr] at hsb

/-- Nothing is deleted where every object stays and no reference goes. -/
theorem Deleted₀.of_le {w' : RefWorld} (hlive : ∀ a o, w.memory.objects a = some o →
      w'.memory.objects a ≠ none) (hcount : ∀ a, w.count a ≤ w'.count a) : Deleted₀ w w' := by
  intro a o ha
  have hle := hcount a
  refine ⟨fun hnone => absurd hnone (hlive a o ha), fun ⟨hpos, hzero, _⟩ => ?_⟩
  rw [or_false] at hpos
  omega

theorem RefOk.lost (h : RefOk w) (hr : r ∈ w.names) {d : DBRef} (hd : d.object = none) :
    RefOk ((w.lost (w.ref r)).setRef r d) ∧ Deleted₀ w ((w.lost (w.ref r)).setRef r d) := by
  rw [RefWorld.lost]
  cases hobj : (w.ref r).object with
  | none =>
    obtain ⟨hok, hcount⟩ := h.setRef hr (hd.trans hobj.symm)
    exact ⟨hok, Deleted₀.of_le (fun a o ha hnone => nomatch ha.symm.trans hnone)
      fun a => (hcount a).ge⟩
  | some a =>
    obtain ⟨o, ha⟩ := Option.ne_none_iff_exists'.mp (h.alive r hr a hobj)
    simp only [ha, Option.elim_some]
    exact h.drop hr hobj ha hd

/-- A reference comes, without an object. -/
theorem RefOk.construct (h : RefOk w) (hr : r ∉ w.names) {d : DBRef} (hd : d.object = none) :
    RefOk (w.construct r d) ∧ ∀ b, (w.construct r d).count b = w.count b := by
  have hcount : ∀ b, (w.construct r d).count b = w.count b := by
    intro b
    have hself : ((w.construct r d).ref r).object = none := by simp [RefWorld.construct, hd]
    rw [count, RefWorld.construct, References.count_insert hr]
    have hcongr := References.count_congr (a := b) (fun s => ((w.construct r d).ref s).object)
      (fun s => (w.ref s).object) fun s (hs : s ∈ w.names) => by
        have hsr : s ≠ r := fun h => hr (h ▸ hs)
        simp [RefWorld.construct, hsr]
    rw [RefWorld.construct] at hcongr hself
    rw [hcongr, hself, if_neg nofun]
    rfl
  refine ⟨⟨fun b o' hb => ?_, fun s hs b hsb => ?_, h.maps, h.caching⟩, hcount⟩
  · rw [hcount]
    exact h.counted b o' hb
  · by_cases hsr : s = r
    · subst hsr
      simp [RefWorld.construct, hd] at hsb
    · have hs' : s ∈ w.names := (Finset.mem_insert.mp hs).resolve_left hsr
      refine h.alive s hs' b ?_
      simpa [RefWorld.construct, hsr] using hsb

/-- A reference without an object goes. -/
theorem RefOk.erase (h : RefOk w) (hr : r ∈ w.names) (hnone : (w.ref r).object = none) :
    RefOk (w.erase r) ∧ ∀ b, (w.erase r).count b = w.count b := by
  have hcount : ∀ b, (w.erase r).count b = w.count b := by
    intro b
    have hb := References.count_erase (fun s => (w.ref s).object) b hr
    simp only [hnone, reduceCtorEq, if_false, Nat.add_zero] at hb
    exact hb.symm
  refine ⟨⟨fun b o' hb => ?_, fun s hs => h.alive s (Finset.mem_of_mem_erase hs), h.maps, h.caching⟩,
    hcount⟩
  rw [hcount]
  exact h.counted b o' hb

/-- An object changes, but for its count and its id. -/
theorem RefOk.setObject (h : RefOk w) (ha : w.memory.objects a = some o) {o' : DBObject}
    (hrc : o'.referenceCount = o.referenceCount) (hid : o'.myOId = o.myOId) : RefOk (w.setObject a o') := by
  have hother : ∀ b, b ≠ a → (w.setObject a o').memory.objects b = w.memory.objects b :=
    fun b hba => Function.update_of_ne hba _ _
  have hself := objects_setObject w a o'
  refine ⟨fun b o'' hb => ?_, fun s hs b hsb hb => ?_, fun id b hmap => ?_, h.caching⟩
  · by_cases hba : b = a
    · subst hba
      rw [← Option.some.inj (hself.symm.trans hb), hrc]
      exact h.counted b o ha
    · exact h.counted b o'' ((hother b hba).symm.trans hb)
  · by_cases hba : b = a
    · subst hba
      exact nomatch hself.symm.trans hb
    · exact h.alive s hs b hsb ((hother b hba).symm.trans hb)
  · obtain ⟨hhas, o'', hb, hid'⟩ := h.maps id b hmap
    refine ⟨hhas, ?_⟩
    by_cases hba : b = a
    · subst hba
      obtain rfl := Option.some.inj (ha.symm.trans hb)
      exact ⟨o', hself, hid.trans hid'⟩
    · exact ⟨o'', (hother b hba).trans hb, hid'⟩

/-- No reference points to a free address. -/
theorem RefOk.count_free (h : RefOk w) (ha : w.memory.objects a = none) : w.count a = 0 :=
  References.count_eq_zero.mpr fun r hr hra => h.alive r hr a hra ha

/-- An object without references appears, with or without an entry in the maps. -/
theorem RefOk.appear (h : RefOk w) (ha : w.memory.objects a = none) (hrc : o.referenceCount = 0)
    {maps : TypedOId → Option ℕ} (hmaps : ∀ id b, maps id = some b → w.memory.maps id = some b ∨
      (b = a ∧ id = o.myOId ∧ id.oidtype.hasMap = true)) :
    RefOk { w with memory := { w.memory.setObject a (some o) with maps := maps } } := by
  have hother : ∀ b, b ≠ a →
      (w.memory.setObject a (some o)).objects b = w.memory.objects b :=
    fun b hba => Function.update_of_ne hba _ _
  have hself : (w.memory.setObject a (some o)).objects a = some o := Function.update_self _ _ _
  refine ⟨fun b o' hb => ?_, fun s hs b hsb hb => ?_, fun id b hmap => ?_, h.caching⟩
  · by_cases hba : b = a
    · subst hba
      rw [← Option.some.inj (hself.symm.trans hb), hrc]
      exact_mod_cast (h.count_free ha).symm
    · exact h.counted b o' ((hother b hba).symm.trans hb)
  · by_cases hba : b = a
    · subst hba
      exact nomatch hself.symm.trans hb
    · exact h.alive s hs b hsb ((hother b hba).symm.trans hb)
  · rcases hmaps id b hmap with hmap | ⟨rfl, rfl, hhas⟩
    · obtain ⟨hhas, o', hb, hid⟩ := h.maps id b hmap
      have hba : b ≠ a := by
        rintro rfl
        exact nomatch ha.symm.trans hb
      exact ⟨hhas, o', (hother b hba).trans hb, hid⟩
    · exact ⟨hhas, o, hself, rfl⟩

/-! ## Loading -/

/-- The object that a reference gets when it is used. -/
def RefWorld.Loads (w : RefWorld) (r a : ℕ) : Prop :=
  (w.ref r).object = none ∧ w.memory.maps (w.ref r).objId = some a

/-- What the `ObjectBroker` does: objects stay, the result is an object that exists or an exception. -/
theorem RefOk.getObjectByOId (h : RefOk w) {new : ℕ} (hnew : w.memory.objects new = none) {id : TypedOId}
    (hid : id.oidtype ≠ invalid) : ∃ M result, w.memory.getObjectByOId new id = (M, result) ∧
      RefOk { w with memory := M } ∧ M.server = w.memory.server ∧
      (∀ a o, w.memory.objects a = some o → M.objects a = some o) ∧ result ≠ .ok none ∧
      (∀ b, result = .ok (some b) → M.objects b ≠ none) ∧
      ∀ a o, w.memory.objects a = some o → (w.memory.maps id = some a ↔ result = .ok (some a)) := by
  have hkeep : ∀ result : Except RError (Option ℕ), result ≠ .ok none →
      (∀ a, w.memory.maps id = some a ↔ result = .ok (some a)) →
      ∃ M result', (w.memory, result) = (M, result') ∧ RefOk { w with memory := M } ∧
        M.server = w.memory.server ∧ (∀ a o, w.memory.objects a = some o → M.objects a = some o) ∧
        result' ≠ .ok none ∧ (∀ b, result' = .ok (some b) → M.objects b ≠ none) ∧
        ∀ a o, w.memory.objects a = some o →
          (w.memory.maps id = some a ↔ result' = .ok (some a)) := by
    intro result hne hmaps
    refine ⟨w.memory, result, rfl, h, rfl, fun _ _ ha => ha, hne, fun b hb hnone => ?_,
      fun a _ _ => hmaps a⟩
    obtain ⟨-, o, hb, -⟩ := h.maps id b ((hmaps b).mpr hb)
    exact Option.some_ne_none o (hb.symm.trans hnone)
  rw [ObjectMemory.getObjectByOId, if_neg hid]
  split
  swap
  · next hhas =>
    exact hkeep _ (by rintro ⟨⟩) fun a => ⟨fun ha => absurd (h.maps id a ha).1 hhas, by rintro ⟨⟩⟩
  next hhas =>
  split
  · next b hb =>
    refine hkeep _ (fun hnone => Option.some_ne_none b (Except.ok.inj hnone)) fun a => ?_
    rw [hb]
    exact ⟨fun hba => by rw [Option.some.inj hba], fun hba => by rw [Option.some.inj (Except.ok.inj hba)]⟩
  next hfree =>
  split
  · exact hkeep _ (by rintro ⟨⟩) fun a =>
      ⟨fun ha => absurd (ha.symm.trans hfree) (Option.some_ne_none a), by rintro ⟨⟩⟩
  split
  swap
  · exact hkeep _ (by rintro ⟨⟩) fun a =>
      ⟨fun ha => absurd (ha.symm.trans hfree) (Option.some_ne_none a), by rintro ⟨⟩⟩
  have hM : ((w.memory.setObject new (some (.loaded id))).registerDBObject new id).1 =
      { w.memory.setObject new (some (.loaded id)) with
        maps := Function.update w.memory.maps id (some new) } := by
    rw [ObjectMemory.registerDBObject, if_pos hhas]
    simp only [ObjectMemory.setObject, hfree]
  have hother : ∀ a o, w.memory.objects a = some o → a ≠ new := by
    rintro a o ha rfl
    exact Option.some_ne_none o (ha.symm.trans hnew)
  refine ⟨_, _, rfl, ?_, ?_, ?_, fun hnone => Option.some_ne_none new (Except.ok.inj hnone), ?_, ?_⟩
  · rw [hM]
    refine h.appear hnew rfl fun id' b hmap => ?_
    by_cases hid' : id' = id
    · subst hid'
      rw [Function.update_self] at hmap
      exact .inr ⟨(Option.some.inj hmap).symm, rfl, hhas⟩
    · rw [Function.update_of_ne hid'] at hmap
      exact .inl hmap
  · rw [hM]
    rfl
  · intro a o ha
    rw [hM]
    exact (Function.update_of_ne (hother a o ha) _ _).trans ha
  · intro b hb
    obtain rfl := Option.some.inj (Except.ok.inj hb)
    rw [hM]
    have hself : (w.memory.setObject new (some (.loaded id))).objects new = some (.loaded id) :=
      Function.update_self _ _ _
    rw [hself]
    exact Option.some_ne_none _
  · intro a o ha
    refine ⟨fun hmap => absurd (hmap.symm.trans hfree) (Option.some_ne_none a), fun hres => ?_⟩
    exact absurd (Option.some.inj (Except.ok.inj hres)).symm (hother a o ha)

/-- What `is_null` does: references of other names stay, and this one has an object unless it says so. -/
theorem RefOk.isNull (h : RefOk w) (hr : r ∈ w.names) {new : ℕ} (hnew : w.memory.objects new = none) :
    ∃ res w₁, exec (isNull r new) () w = (res, w₁) ∧ RefOk w₁ ∧ r ∈ w₁.names ∧
      w₁.memory.server = w.memory.server ∧ res ≠ .error .outside ∧
      (res = .ok false → (w₁.ref r).object ≠ none) ∧
      ∀ a o, w.memory.objects a = some o →
        (∃ o₁, w₁.memory.objects a = some o₁ ∧ o₁.isCached = o.isCached ∧
          o₁.isPersistent = o.isPersistent) ∧
        (w.Loads r a → w₁.count a = w.count a + 1) ∧ (¬ w.Loads r a → w₁.count a = w.count a) := by
  cases hobj : (w.ref r).object with
  | some b =>
    refine ⟨.ok false, w, ?_, h, hr, rfl, nofun, fun _ => ?_, fun a o ha => ⟨⟨o, ha, rfl, rfl⟩, ?_, ?_⟩⟩
    · simp [DBRef.isNull, named, exec_bind, hobj, h.caching, -bind_pure_comp]
    · rw [hobj]
      exact nofun
    · exact fun hloads => nomatch hobj.symm.trans hloads.1
    · exact fun _ => rfl
  | none =>
    by_cases hid : (w.ref r).objId.oidtype = invalid
    · refine ⟨.error (.throws .oidInvalid), w, ?_, h, hr, rfl, nofun, nofun,
        fun a o ha => ⟨⟨o, ha, rfl, rfl⟩, fun hloads => ?_, fun _ => rfl⟩⟩
      · simp [DBRef.isNull, named, exec_bind, hobj, hid, -bind_pure_comp]
      · have hhas := (h.maps _ a hloads.2).1
        rw [hid] at hhas
        exact nomatch hhas
    · obtain ⟨M, result, hget, hok, hserver, hkeep, hnone, hsome, hmaps⟩ :=
        h.getObjectByOId hnew hid
      have hload : exec (DBRef.isNull r new) () w = exec (load r new) () w := by
        simp [DBRef.isNull, named, exec_bind, hobj, hid, -bind_pure_comp]
      rw [hload]
      set w₁ : RefWorld := { w with memory := M } with hw₁
      cases result with
      | error e =>
        have hno : ∀ a o, w.memory.objects a = some o → ¬ w.Loads r a := fun a o ha hloads =>
          nomatch (hmaps a o ha).mp hloads.2
        refine ⟨if e = .objectUnknown then .ok true else .error (.throws e), w₁, ?_, hok, hr, hserver, ?_, ?_,
          fun a o ha => ⟨⟨o, hkeep a o ha, rfl, rfl⟩, fun hloads => absurd hloads (hno a o ha),
            fun _ => rfl⟩⟩
        · cases e <;> simp [load, named, exec_bind, hget, hw₁, -bind_pure_comp]
        · split <;> exact nofun
        · split <;> exact nofun
      | ok found =>
        cases found with
        | none => exact absurd rfl hnone
        | some b =>
          obtain ⟨ob, hb⟩ := Option.ne_none_iff_exists'.mp (hsome b rfl)
          have hb₁ : w₁.memory.objects b = some ob := hb
          obtain ⟨hgain, -⟩ := hok.gain (w := w₁) hr hobj hb₁ (d := { w.ref r with object := some b }) rfl
          refine ⟨.ok false, _, ?_, hgain, hr, hserver, nofun, fun _ => ?_, fun a o ha => ⟨?_, ?_, ?_⟩⟩
          · have hinc := exec_increment hb₁
            rw [hw₁] at hinc
            simp [load, put, named, exec_bind, hget, hinc, hw₁, -bind_pure_comp]
          · rw [setRef_self]
            exact nofun
          · by_cases hab : a = b
            · subst hab
              obtain rfl := Option.some.inj (hb.symm.trans (hkeep a o ha))
              exact ⟨_, objects_setObject w₁ a _, rfl, rfl⟩
            · exact ⟨o, (objects_gain_ne w₁ ob hab).trans (hkeep a o ha), rfl, rfl⟩
          · intro hloads
            have hba : b = a := Option.some.inj (Except.ok.inj ((hmaps a o ha).mp hloads.2))
            rw [count_gain w₁ ob hr hobj rfl a, if_pos hba]
            rfl
          · intro hloads
            have hba : b ≠ a := by
              rintro rfl
              exact hloads ⟨hobj, (hmaps b o ha).mpr rfl⟩
            rw [count_gain w₁ ob hr hobj rfl a, if_neg hba]
            rfl

/-! ## Events -/

namespace ReferenceCounts

/-- What happens to references, by name, and to objects, by address.  Where an object may be loaded, `new` is
the address for it. -/
inductive Event
  | constructOId (r : ℕ) (id : TypedOId)
  | constructRef (r src : ℕ)
  | constructPointer (r : ℕ) (newPtr : Option ℕ)
  | assign (r src : ℕ)
  | assignPointer (r : ℕ) (newPtr : Option ℕ)
  | pointer (r new : ℕ)
  | getOId (r : ℕ)
  | deleteObject (r new : ℕ)
  | release (r : ℕ)
  | destruct (r : ℕ)
  | newObject (a : ℕ) (objecttype : OIdType)
  | copyObject (a old : ℕ)
  | setCached (a : ℕ) (newCached : Bool)

/-- The code of an event. -/
def op : Event → RefOp Unit
  | .constructOId r id => modify fun w => w.construct r (.ofOId id)
  | .constructRef r src => do
    let d ← ofRef (← named src)
    modify fun w => w.construct r d
  | .constructPointer r newPtr => do
    let d ← ofPointer newPtr
    modify fun w => w.construct r d
  | .assign r src => DBRef.assign r src
  | .assignPointer r newPtr => DBRef.assignPointer r newPtr
  | .pointer r new => do let _ ← DBRef.pointer r new
  | .getOId r => do let _ ← DBRef.getOId r
  | .deleteObject r new => DBRef.deleteObject r new
  | .release r => DBRef.release r
  | .destruct r => DBRef.destruct r
  | .newObject a t => modify fun w => w.setObject a (.new t)
  | .copyObject a old => do
    let o ← fetch old
    modify fun w => w.setObject a o.copied
  | .setCached a newCached => do
    let o ← fetch a
    modify fun w => w.setObject a (o.setCached newCached)

/-- Pointers that come from outside are null, or to objects that exist. -/
def Valid (w : RefWorld) (newPtr : Option ℕ) : Prop :=
  ∀ a ∈ newPtr, w.memory.objects a ≠ none

/-- References are constructed once and used until they are destroyed, new objects are at free addresses,
and pointers are to objects that exist. -/
def Enabled (w : RefWorld) : Event → Prop
  | .constructOId r _ => r ∉ w.names
  | .constructRef r src => r ∉ w.names ∧ src ∈ w.names
  | .constructPointer r newPtr => r ∉ w.names ∧ Valid w newPtr
  | .assign r src => r ∈ w.names ∧ src ∈ w.names
  | .assignPointer r newPtr => r ∈ w.names ∧ Valid w newPtr
  | .pointer r new => r ∈ w.names ∧ w.memory.objects new = none
  | .getOId r => r ∈ w.names
  | .deleteObject r new => r ∈ w.names ∧ w.memory.objects new = none
  | .release r => r ∈ w.names
  | .destruct r => r ∈ w.names
  | .newObject a _ => w.memory.objects a = none
  | .copyObject a old => w.memory.objects a = none ∧ w.memory.objects old ≠ none
  | .setCached a _ => w.memory.objects a ≠ none

instance (w : RefWorld) : (e : Event) → Decidable (Enabled w e)
  | .constructOId r _ => inferInstanceAs (Decidable (r ∉ w.names))
  | .constructRef r src => inferInstanceAs (Decidable (r ∉ w.names ∧ src ∈ w.names))
  | .constructPointer r newPtr => inferInstanceAs
      (Decidable (r ∉ w.names ∧ ∀ a ∈ newPtr, w.memory.objects a ≠ none))
  | .assign r src => inferInstanceAs (Decidable (r ∈ w.names ∧ src ∈ w.names))
  | .assignPointer r newPtr => inferInstanceAs
      (Decidable (r ∈ w.names ∧ ∀ a ∈ newPtr, w.memory.objects a ≠ none))
  | .pointer r new => inferInstanceAs (Decidable (r ∈ w.names ∧ w.memory.objects new = none))
  | .getOId r => inferInstanceAs (Decidable (r ∈ w.names))
  | .deleteObject r new => inferInstanceAs (Decidable (r ∈ w.names ∧ w.memory.objects new = none))
  | .release r => inferInstanceAs (Decidable (r ∈ w.names))
  | .destruct r => inferInstanceAs (Decidable (r ∈ w.names))
  | .newObject a _ => inferInstanceAs (Decidable (w.memory.objects a = none))
  | .copyObject a old => inferInstanceAs
      (Decidable (w.memory.objects a = none ∧ w.memory.objects old ≠ none))
  | .setCached a _ => inferInstanceAs (Decidable (w.memory.objects a ≠ none))

/-- One event; what is not enabled does not happen. -/
def step (w : RefWorld) (e : Event) : RefWorld := if Enabled w e then (exec (op e) () w).2 else w

/-- The objects that get a reference in an event although they may lose it again. -/
def loads (w : RefWorld) : Event → ℕ → Prop
  | .pointer r _ | .deleteObject r _ => w.Loads r
  | _ => fun _ => False

/-- What is promised about an event: it touches no object that was deleted, the count of every object is the
number of references to it, and exactly the objects that lost their last reference and do not stay are
deleted. -/
def EventOk (w : RefWorld) (e : Event) : Prop :=
  Enabled w e → (exec (op e) () w).1 ≠ .error .outside ∧
    (∀ a o, (step w e).memory.objects a = some o → o.referenceCount = (step w e).count a) ∧
      Deleted (loads w e) w (step w e)

/-- A reference does not get the object that it has, when it is the only one to it and the object does not
stay; only objects without references are copied. -/
def Safe (w : RefWorld) (e : Event) : Prop := Enabled w e →
  match e with
  | .assign r src => ∀ a o, (w.ref r).object = some a → (w.ref src).object = some a →
      w.memory.objects a = some o → o.referenceCount = 1 → w.Kept o
  | .assignPointer r newPtr => ∀ a o, (w.ref r).object = some a → newPtr = some a →
      w.memory.objects a = some o → o.referenceCount = 1 → w.Kept o
  | .copyObject _ old => ∀ o, w.memory.objects old = some o → o.referenceCount = 0
  | _ => True

/-- The outcome of an event that is as promised. -/
structure Fine (w : RefWorld) (loads : ℕ → Prop) (x : Except Halt Unit × RefWorld) : Prop where
  inside : x.1 ≠ .error .outside
  ok : RefOk x.2
  deleted : Deleted loads w x.2

theorem fine_construct (h : RefOk w) (hr : r ∉ w.names) {d : DBRef} (hd : d.object = none) :
    RefOk (w.construct r d) ∧ Deleted₀ w (w.construct r d) := by
  obtain ⟨hok, hcount⟩ := h.construct hr hd
  exact ⟨hok, Deleted₀.of_le (fun a o ha hnone => nomatch ha.symm.trans hnone) fun a => (hcount a).ge⟩

theorem fine_construct_gain (h : RefOk w) (hr : r ∉ w.names) (ha : w.memory.objects a = some o)
    {d : DBRef} (hd : d.object = some a) :
    RefOk ((w.gain a o).construct r d) ∧ Deleted₀ w ((w.gain a o).construct r d) := by
  have heq : (w.gain a o).construct r d = ((w.construct r (.ofOId .none)).gain a o).setRef r d := by
    simp [RefWorld.construct, RefWorld.setRef, RefWorld.gain, RefWorld.setObject]
  obtain ⟨hok, hdel⟩ := fine_construct h hr (d := .ofOId .none) rfl
  obtain ⟨hok', hdel'⟩ := hok.gain (Finset.mem_insert_self r w.names)
    (by simp [RefWorld.construct, DBRef.ofOId]) (show (w.construct r _).memory.objects a = some o from ha) hd
  rw [heq]
  exact ⟨hok', hdel' hdel⟩

theorem fine_constructOId (h : RefOk w) (hr : r ∉ w.names) (id : TypedOId) :
    Fine w (fun _ => False) (exec (op (.constructOId r id)) () w) := by
  obtain ⟨hok, hdel⟩ := fine_construct h hr (d := .ofOId id) rfl
  exact ⟨nofun, hok, hdel⟩

theorem fine_constructRef (h : RefOk w) (hr : r ∉ w.names) (hs : s ∈ w.names) :
    Fine w (fun _ => False) (exec (op (.constructRef r s)) () w) := by
  have hof := exec_ofRef h.caching (h.alive s hs)
  cases hobj : (w.ref s).object with
  | none =>
    simp only [hobj] at hof
    simp only [op, named, exec_bind, exec_get, exec_pure, hof, exec_modify]
    obtain ⟨hok, hdel⟩ := fine_construct h hr (d := ⟨none, (w.ref s).objId, (w.ref s).pointerValid⟩) rfl
    exact ⟨nofun, hok, hdel⟩
  | some a =>
    obtain ⟨o, ha⟩ := Option.ne_none_iff_exists'.mp (h.alive s hs a hobj)
    simp only [hobj, ha, Option.elim_some] at hof
    simp only [op, named, exec_bind, exec_get, exec_pure, hof, exec_modify]
    obtain ⟨hok, hdel⟩ := fine_construct_gain h hr ha (d := ⟨some a, o.myOId, (w.ref s).pointerValid⟩) rfl
    exact ⟨nofun, hok, hdel⟩

theorem fine_constructPointer (h : RefOk w) (hr : r ∉ w.names) {newPtr : Option ℕ}
    (hp : Valid w newPtr) : Fine w (fun _ => False) (exec (op (.constructPointer r newPtr)) () w) := by
  cases newPtr with
  | none =>
    obtain ⟨hok, hdel⟩ := fine_construct h hr (d := ⟨none, .none, false⟩) rfl
    exact ⟨nofun, hok, hdel⟩
  | some a =>
    obtain ⟨o, ha⟩ := Option.ne_none_iff_exists'.mp (hp a rfl)
    simp only [op, ofPointer, exec_bind, exec_fetch ha, exec_increment ha, exec_pure, exec_modify]
    obtain ⟨hok, hdel⟩ := fine_construct_gain h hr ha (d := ⟨some a, o.myOId, true⟩) rfl
    exact ⟨nofun, hok, hdel⟩

theorem fine_release (h : RefOk w) (hr : r ∈ w.names) :
    Fine w (fun _ => False) (exec (op (.release r)) () w) := by
  simp only [op, DBRef.release, named, exec_bind, exec_get, exec_pure,
    exec_letGo h.caching (h.alive r hr), put, exec_modify]
  obtain ⟨hok, hdel⟩ := h.lost hr (d := { w.ref r with object := none }) rfl
  exact ⟨nofun, hok, hdel⟩

theorem fine_destruct (h : RefOk w) (hr : r ∈ w.names) :
    Fine w (fun _ => False) (exec (op (.destruct r)) () w) := by
  simp only [op, DBRef.destruct, named, exec_bind, exec_get, exec_pure,
    exec_letGo h.caching (h.alive r hr), put, exec_modify]
  obtain ⟨hok, hdel⟩ := h.lost hr (d := { w.ref r with object := none }) rfl
  have hr' : r ∈ ((w.lost (w.ref r)).setRef r { w.ref r with object := none }).names := by
    show r ∈ (w.lost (w.ref r)).names
    rw [(lost_eq w _).2.1]
    exact hr
  obtain ⟨hok', hcount⟩ := hok.erase hr' (by rw [setRef_self])
  refine ⟨nofun, hok', fun a o ha => ?_⟩
  rw [hcount a]
  exact hdel a o ha

theorem lost_of_object {d : DBRef} (hobj : d.object = some a) (ha : w.memory.objects a = some o) :
    w.lost d = w.drop a o := by
  rw [RefWorld.lost, hobj]
  simp only [ha, Option.elim_some]

/-- An object is there after a reference let its own object go, unless it was the same and the last. -/
theorem lost_alive (h : RefOk w) (hr : r ∈ w.names) {b : ℕ} {ob : DBObject}
    (hb : w.memory.objects b = some ob)
    (hsafe : (w.ref r).object = some b → ob.referenceCount = 1 → w.Kept ob) :
    ∃ ob', (w.lost (w.ref r)).memory.objects b = some ob' := by
  cases hobj : (w.ref r).object with
  | none =>
    rw [RefWorld.lost, hobj]
    exact ⟨ob, hb⟩
  | some a =>
    obtain ⟨o, ha⟩ := Option.ne_none_iff_exists'.mp (h.alive r hr a hobj)
    rw [lost_of_object hobj ha]
    by_cases hba : b = a
    · subst hba
      obtain rfl := Option.some.inj (hb.symm.trans ha)
      refine ⟨_, (objects_drop_self w b ob).trans (if_neg fun hgone => ?_)⟩
      exact hgone.2 (hsafe hobj hgone.1)
    · exact ⟨ob, (objects_drop_ne w o hba).trans hb⟩

theorem lost_gone {b : ℕ} {ob : DBObject} (hobj : (w.ref r).object = some b)
    (hb : w.memory.objects b = some ob) (hlast : ob.referenceCount = 1) (hkept : ¬ w.Kept ob) :
    (w.lost (w.ref r)).memory.objects b = none := by
  rw [lost_of_object hobj hb, objects_drop_self, if_pos ⟨hlast, hkept⟩]

/-- A reference lets its object go and gets another. -/
theorem fine_lost_gain (h : RefOk w) (hr : r ∈ w.names) {b : ℕ} {ob : DBObject}
    (hb : (w.lost (w.ref r)).memory.objects b = some ob) {d : DBRef} (hd : d.object = some b) :
    RefOk (((w.lost (w.ref r)).gain b ob).setRef r d) ∧
      Deleted₀ w (((w.lost (w.ref r)).gain b ob).setRef r d) := by
  have heq : ((w.lost (w.ref r)).gain b ob).setRef r d =
      (((w.lost (w.ref r)).setRef r (.ofOId .none)).gain b ob).setRef r d := by
    simp [RefWorld.setRef, RefWorld.gain, RefWorld.setObject]
  obtain ⟨hok, hdel⟩ := h.lost hr (d := .ofOId .none) rfl
  have hr' : r ∈ ((w.lost (w.ref r)).setRef r (.ofOId .none)).names := by
    show r ∈ (w.lost (w.ref r)).names
    rw [(lost_eq w _).2.1]
    exact hr
  obtain ⟨hok', hdel'⟩ := hok.gain hr' (by rw [setRef_self]; rfl) hb hd
  rw [heq]
  exact ⟨hok', hdel' hdel⟩

theorem exec_assign (h : RefOk w) (hr : r ∈ w.names) :
    exec (DBRef.assign r s) () w = match (w.ref s).object with
      | none => (.ok (), (w.lost (w.ref r)).setRef r (w.ref s))
      | some b => ((w.lost (w.ref r)).memory.objects b).elim
        (.error .outside, (w.lost (w.ref r)).setRef r (w.ref s)) fun o =>
          (.ok (), ((w.lost (w.ref r)).gain b o).setRef r { w.ref s with objId := o.myOId }) := by
  obtain ⟨href, -, hcaching⟩ := lost_eq w (w.ref r)
  have hgo := exec_letGo h.caching (h.alive r hr)
  rw [h.caching] at hcaching
  cases hobj : (w.ref s).object with
  | none =>
    simp [DBRef.assign, named, put, exec_bind, hgo, href, hobj, -bind_pure_comp]
  | some b =>
    cases hb : (w.lost (w.ref r)).memory.objects b with
    | none =>
      have hfetch := exec_fetch_none (w := (w.lost (w.ref r)).setRef r (w.ref s)) (a := b) hb
      simp [DBRef.assign, named, put, exec_bind, hgo, href, hobj, hb, hcaching, hfetch,
        -bind_pure_comp]
    | some o =>
      have hfetch := exec_fetch (w := (w.lost (w.ref r)).setRef r (w.ref s)) (a := b) hb
      have hinc : ∀ d, exec (incrementReferenceCount b) () ((w.lost (w.ref r)).setRef r d) =
          (.ok (), ((w.lost (w.ref r)).gain b o).setRef r d) := fun d =>
        exec_increment (w := (w.lost (w.ref r)).setRef r d) hb
      simp [DBRef.assign, named, put, exec_bind, hgo, href, hobj, hb, hcaching, hfetch, hinc,
        -bind_pure_comp]

theorem exec_assignPointer (h : RefOk w) (hr : r ∈ w.names) (newPtr : Option ℕ) :
    exec (DBRef.assignPointer r newPtr) () w = match newPtr with
      | none => (.ok (), (w.lost (w.ref r)).setRef r ⟨none, .none, false⟩)
      | some b => ((w.lost (w.ref r)).memory.objects b).elim
        (.error .outside, w.lost (w.ref r)) fun o =>
          (.ok (), ((w.lost (w.ref r)).gain b o).setRef r ⟨some b, o.myOId, true⟩) := by
  have hgo := exec_letGo h.caching (h.alive r hr)
  cases newPtr with
  | none => simp [DBRef.assignPointer, named, put, exec_bind, hgo, -bind_pure_comp]
  | some b =>
    cases hb : (w.lost (w.ref r)).memory.objects b with
    | none =>
      simp [DBRef.assignPointer, named, put, exec_bind, hgo, hb, exec_fetch_none hb, -bind_pure_comp]
    | some o =>
      have hinc : ∀ d, exec (incrementReferenceCount b) () ((w.lost (w.ref r)).setRef r d) =
          (.ok (), ((w.lost (w.ref r)).gain b o).setRef r d) := fun d =>
        exec_increment (w := (w.lost (w.ref r)).setRef r d) hb
      simp [DBRef.assignPointer, named, put, exec_bind, hgo, hb, exec_fetch hb, hinc, -bind_pure_comp]

theorem fine_assign (h : RefOk w) (hr : r ∈ w.names) (hs : s ∈ w.names)
    (hsafe : ∀ a o, (w.ref r).object = some a → (w.ref s).object = some a →
      w.memory.objects a = some o → o.referenceCount = 1 → w.Kept o) :
    Fine w (fun _ => False) (exec (op (.assign r s)) () w) := by
  rw [op, exec_assign h hr]
  cases hobj : (w.ref s).object with
  | none =>
    obtain ⟨hok, hdel⟩ := h.lost hr hobj
    exact ⟨nofun, hok, hdel⟩
  | some b =>
    obtain ⟨o, hb⟩ := Option.ne_none_iff_exists'.mp (h.alive s hs b hobj)
    obtain ⟨o', hb'⟩ := lost_alive h hr hb fun hrb => hsafe b o hrb hobj hb
    simp only [hb', Option.elim_some]
    obtain ⟨hok, hdel⟩ := fine_lost_gain h hr hb' (d := { w.ref s with objId := o'.myOId }) hobj
    exact ⟨nofun, hok, hdel⟩

theorem fine_assignPointer (h : RefOk w) (hr : r ∈ w.names) {newPtr : Option ℕ}
    (hp : Valid w newPtr)
    (hsafe : ∀ a o, (w.ref r).object = some a → newPtr = some a →
      w.memory.objects a = some o → o.referenceCount = 1 → w.Kept o) :
    Fine w (fun _ => False) (exec (op (.assignPointer r newPtr)) () w) := by
  rw [op, exec_assignPointer h hr]
  cases newPtr with
  | none =>
    obtain ⟨hok, hdel⟩ := h.lost hr (d := ⟨none, .none, false⟩) rfl
    exact ⟨nofun, hok, hdel⟩
  | some b =>
    obtain ⟨o, hb⟩ := Option.ne_none_iff_exists'.mp (hp b rfl)
    obtain ⟨o', hb'⟩ := lost_alive h hr hb fun hrb => hsafe b o hrb rfl hb
    simp only [hb', Option.elim_some]
    obtain ⟨hok, hdel⟩ := fine_lost_gain h hr hb' (d := ⟨some b, o'.myOId, true⟩) rfl
    exact ⟨nofun, hok, hdel⟩

theorem Deleted₀.refl (w : RefWorld) : Deleted₀ w w :=
  .of_le (fun _ _ ha hnone => nomatch ha.symm.trans hnone) fun _ => le_rfl

/-- A reference that comes and goes beside another one changes nothing. -/
theorem gain_drop (ha : w.memory.objects a = some o) (hrc : 0 < o.referenceCount) :
    (w.gain a o).drop a { o with referenceCount := o.referenceCount + 1 } = w := by
  have hne : ¬ o.referenceCount = 0 := by omega
  rw [RefWorld.drop, if_neg (by simp [hne])]
  simp [RefWorld.gain, RefWorld.setObject, ObjectMemory.setObject, ← ha]

theorem fine_getOId (h : RefOk w) (hr : r ∈ w.names) :
    Fine w (fun _ => False) (exec (op (.getOId r)) () w) := by
  have hof := exec_ofRef h.caching (h.alive r hr)
  cases hobj : (w.ref r).object with
  | none =>
    have hexec : exec (op (.getOId r)) () w = (.ok (), w) := by
      simp [op, DBRef.getOId, named, exec_bind, hobj, -bind_pure_comp]
    rw [hexec]
    exact ⟨nofun, h, Deleted₀.refl w⟩
  | some a =>
    obtain ⟨o, ha⟩ := Option.ne_none_iff_exists'.mp (h.alive r hr a hobj)
    have hpos : 0 < w.count a := References.count_pos.mpr ⟨r, hr, hobj⟩
    have hrc := h.counted a o ha
    have hgain : (w.gain a o).memory.objects a =
        some { o with referenceCount := o.referenceCount + 1 } := objects_setObject w a _
    have hgo := exec_letGo (w := w.gain a o) (d := ⟨some a, o.myOId, (w.ref r).pointerValid⟩) h.caching
      fun b hb => by
        obtain rfl := Option.some.inj hb
        rw [hgain]
        exact nofun
    rw [lost_of_object rfl hgain, gain_drop ha (by omega)] at hgo
    simp only [hobj, ha, Option.elim_some] at hof
    have hexec : exec (op (.getOId r)) () w = (.ok (), w) := by
      simp [op, DBRef.getOId, named, exec_bind, hobj, h.caching, hof, exec_fetch hgain, hgo,
        -bind_pure_comp]
    rw [hexec]
    exact ⟨nofun, h, Deleted₀.refl w⟩

/-- What a reference got when it was used stays, or is dropped again. -/
theorem Deleted₀.after {loads : ℕ → Prop} {w w₁ w₂ : RefWorld} (h : Deleted₀ w₁ w₂)
    (hw : ∀ a o, w.memory.objects a = some o →
      (∃ o₁, w₁.memory.objects a = some o₁ ∧ (w₁.Kept o₁ ↔ w.Kept o)) ∧
        (loads a → w₁.count a = w.count a + 1) ∧ (¬ loads a → w₁.count a = w.count a)) :
    Deleted loads w w₂ := by
  intro a o ha
  obtain ⟨⟨o₁, ha₁, hkept⟩, hload, hno⟩ := hw a o ha
  rw [h a o₁ ha₁, hkept, or_false]
  have hpos : 0 < w₁.count a ↔ 0 < w.count a ∨ loads a := by
    by_cases hl : loads a
    · rw [hload hl]
      exact ⟨fun _ => .inr hl, fun _ => Nat.succ_pos _⟩
    · rw [hno hl]
      exact ⟨.inl, fun hor => hor.resolve_right hl⟩
  rw [hpos]

theorem kept_congr {w w₁ : RefWorld} {o o₁ : DBObject} (hserver : w₁.memory.server = w.memory.server)
    (hcached : o₁.isCached = o.isCached) (hper : o₁.isPersistent = o.isPersistent) :
    w₁.Kept o₁ ↔ w.Kept o := by
  rw [Kept, Kept, hserver, hcached, hper]

theorem fine_pointer (h : RefOk w) (hr : r ∈ w.names) {new : ℕ} (hnew : w.memory.objects new = none) :
    Fine w (w.Loads r) (exec (op (.pointer r new)) () w) := by
  obtain ⟨res, w₁, hexec, hok, -, hserver, hinside, -, hobjects⟩ := h.isNull hr hnew
  have hdel : Deleted (w.Loads r) w w₁ := Deleted₀.after (Deleted₀.refl w₁) fun a o ha => by
    obtain ⟨⟨o₁, ha₁, hcached, hper⟩, hload, hno⟩ := hobjects a o ha
    exact ⟨⟨o₁, ha₁, kept_congr hserver hcached hper⟩, hload, hno⟩
  cases res with
  | error e =>
    have hrun : exec (op (.pointer r new)) () w = (.error e, w₁) := by
      simp [op, DBRef.pointer, exec_bind, hexec, -bind_pure_comp]
    rw [hrun]
    exact ⟨fun he => hinside (congrArg Except.error (Except.error.inj he)), hok, hdel⟩
  | ok isNull =>
    cases isNull with
    | true =>
      have hrun : exec (op (.pointer r new)) () w = (.error (.throws .refNull), w₁) := by
        simp [op, DBRef.pointer, exec_bind, hexec, -bind_pure_comp]
      rw [hrun]
      exact ⟨nofun, hok, hdel⟩
    | false =>
      have hrun : exec (op (.pointer r new)) () w = (.ok (), w₁) := by
        simp [op, DBRef.pointer, named, exec_bind, hexec, -bind_pure_comp]
      rw [hrun]
      exact ⟨nofun, hok, hdel⟩

/-- What `setPersistent(false)` does to an object: it throws, or the object is not persistent any more. -/
theorem setPersistent_false (M : ObjectMemory) (ha : M.objects a = some o) :
    (M.setPersistent a o false = (M, some .transactionReadOnly)) ∨
      ∃ o', M.setPersistent a o false = (M.setObject a (some o'), none) ∧
        o'.referenceCount = o.referenceCount ∧ o'.myOId = o.myOId ∧ o'.isCached = o.isCached ∧
          (M.server.readOnlyTA = true → o'.isPersistent = o.isPersistent) := by
  rw [ObjectMemory.setPersistent, if_neg Bool.false_ne_true]
  cases hper : o.isPersistent with
  | false =>
    refine .inr ⟨o, ?_, rfl, rfl, rfl, fun _ => hper⟩
    simp [ObjectMemory.setObject, ← ha]
  | true =>
    cases hro : M.server.readOnlyTA with
    | true => exact .inl (by simp)
    | false => exact .inr ⟨{ o with isPersistent := false, isModified := true }, by simp, rfl, rfl, rfl, by rintro ⟨⟩⟩

theorem fine_deleteObject (h : RefOk w) (hr : r ∈ w.names) {new : ℕ}
    (hnew : w.memory.objects new = none) :
    Fine w (w.Loads r) (exec (op (.deleteObject r new)) () w) := by
  obtain ⟨res, w₁, hexec, hok, hr₁, hserver, hinside, hsome, hobjects⟩ := h.isNull hr hnew
  have hafter : ∀ {w₂}, Deleted₀ w₁ w₂ → Deleted (w.Loads r) w w₂ := fun hdel =>
    Deleted₀.after hdel fun a o ha => by
      obtain ⟨⟨o₁, ha₁, hcached, hper⟩, hload, hno⟩ := hobjects a o ha
      exact ⟨⟨o₁, ha₁, kept_congr hserver hcached hper⟩, hload, hno⟩
  cases res with
  | error e =>
    have hrun : exec (op (.deleteObject r new)) () w = (.error e, w₁) := by
      simp [op, DBRef.deleteObject, exec_bind, hexec, -bind_pure_comp]
    rw [hrun]
    exact ⟨fun he => hinside (congrArg Except.error (Except.error.inj he)), hok, hafter (Deleted₀.refl w₁)⟩
  | ok isNull =>
    cases isNull with
    | true =>
      refine ⟨?_, ?_, ?_⟩ <;>
        by_cases hid : (w₁.ref r).objId.oidtype = invalid <;>
          simp only [op, DBRef.deleteObject, named, exec_bind, hexec, hid, exec_get, exec_pure, exec_throw,
            if_true, if_false]
      · exact nofun
      · exact nofun
      · exact hok
      · exact hok
      · exact hafter (Deleted₀.refl w₁)
      · exact hafter (Deleted₀.refl w₁)
    | false =>
      obtain ⟨a, hobj⟩ := Option.ne_none_iff_exists'.mp (hsome rfl)
      obtain ⟨o, ha⟩ := Option.ne_none_iff_exists'.mp (hok.alive r hr₁ a hobj)
      rcases setPersistent_false w₁.memory ha with hset | ⟨o', hset, hrc, hid, hcached, hper⟩
      · have hrun : exec (op (.deleteObject r new)) () w = (.error (.throws .transactionReadOnly), w₁) := by
          simp [op, DBRef.deleteObject, named, exec_bind, hexec, hobj, exec_fetch ha, hset, -bind_pure_comp]
        rw [hrun]
        exact ⟨nofun, hok, hafter (Deleted₀.refl w₁)⟩
      · have ha' := objects_setObject w₁ a o'
        have hok' := hok.setObject ha hrc hid
        have hrun : exec (op (.deleteObject r new)) () w = (.ok (), ((w₁.setObject a o').drop a o').setRef r
            { w₁.ref r with object := none, objId := .none }) := by
          have hdrop : exec (decrementReferenceCount a) () { w₁ with memory := w₁.memory.setObject a (some o') } =
            (.ok (), (w₁.setObject a o').drop a o') := exec_decrement ha'
          simp [op, DBRef.deleteObject, named, put, exec_bind, hexec, hobj, exec_fetch ha, hset, hdrop,
            -bind_pure_comp]
        obtain ⟨hok₂, hdel⟩ := hok'.drop hr₁ hobj ha'
          (d := { w₁.ref r with object := none, objId := .none }) rfl
        rw [hrun]
        refine ⟨nofun, hok₂, hafter (Deleted₀.after hdel fun b ob hb => ⟨?_, nofun, fun _ => rfl⟩)⟩
        by_cases hba : b = a
        · subst hba
          obtain rfl := Option.some.inj (ha.symm.trans hb)
          refine ⟨o', ha', ?_⟩
          rw [Kept, Kept, hcached]
          exact or_congr Iff.rfl (and_congr_right fun hro => by rw [hper hro])
        · exact ⟨ob, (Function.update_of_ne hba _ _).trans hb, Iff.rfl⟩

theorem fine_newObject (h : RefOk w) (ha : w.memory.objects a = none) (t : OIdType) :
    Fine w (fun _ => False) (exec (op (.newObject a t)) () w) := by
  refine ⟨nofun, h.appear ha (o := .new t) rfl fun _ _ => .inl, ?_⟩
  refine Deleted₀.of_le (fun b o hb => ?_) fun _ => le_rfl
  have hba : b ≠ a := by
    rintro rfl
    exact nomatch ha.symm.trans hb
  exact fun hnone => nomatch ((Function.update_of_ne hba _ _).symm.trans hnone).symm.trans hb

theorem fine_copyObject (h : RefOk w) (ha : w.memory.objects a = none) {old : ℕ}
    (hold : w.memory.objects old = some o) (hrc : o.referenceCount = 0) :
    Fine w (fun _ => False) (exec (op (.copyObject a old)) () w) := by
  have hrun : exec (op (.copyObject a old)) () w = (.ok (), w.setObject a o.copied) := by
    simp [op, exec_bind, exec_fetch hold]
  rw [hrun]
  refine ⟨nofun, h.appear ha (o := o.copied) hrc fun _ _ => .inl, ?_⟩
  refine Deleted₀.of_le (fun b o hb => ?_) fun _ => le_rfl
  have hba : b ≠ a := by
    rintro rfl
    exact nomatch ha.symm.trans hb
  exact fun hnone => nomatch ((Function.update_of_ne hba _ _).symm.trans hnone).symm.trans hb

theorem fine_setCached (h : RefOk w) (ha : w.memory.objects a = some o) (newCached : Bool) :
    Fine w (fun _ => False) (exec (op (.setCached a newCached)) () w) := by
  have hrun : exec (op (.setCached a newCached)) () w = (.ok (), w.setObject a (o.setCached newCached)) := by
    simp [op, exec_bind, exec_fetch ha]
  rw [hrun]
  refine ⟨nofun, h.setObject ha rfl rfl, ?_⟩
  refine Deleted₀.of_le (fun b ob hb hnone => ?_) fun _ => le_rfl
  by_cases hba : b = a
  · subst hba
    exact nomatch (objects_setObject w b _).symm.trans hnone
  · exact nomatch ((Function.update_of_ne hba _ _).symm.trans hnone).symm.trans hb

/-- **Every event is as promised**, unless it is one of the two kinds that break it. -/
theorem RefOk.fine (h : RefOk w) {e : Event} (hen : Enabled w e) (hsafe : Safe w e) :
    Fine w (loads w e) (exec (op e) () w) := by
  have hsafe := hsafe hen
  cases e with
  | constructOId r id => exact fine_constructOId h hen id
  | constructRef r src => exact fine_constructRef h hen.1 hen.2
  | constructPointer r newPtr => exact fine_constructPointer h hen.1 hen.2
  | assign r src => exact fine_assign h hen.1 hen.2 hsafe
  | assignPointer r newPtr => exact fine_assignPointer h hen.1 hen.2 hsafe
  | pointer r new => exact fine_pointer h hen.1 hen.2
  | getOId r => exact fine_getOId h hen
  | deleteObject r new => exact fine_deleteObject h hen.1 hen.2
  | release r => exact fine_release h hen
  | destruct r => exact fine_destruct h hen
  | newObject a t => exact fine_newObject h hen t
  | copyObject a old =>
    obtain ⟨o, hold⟩ := Option.ne_none_iff_exists'.mp hen.2
    exact fine_copyObject h hen.1 hold (hsafe o hold)
  | setCached a newCached =>
    obtain ⟨o, ha⟩ := Option.ne_none_iff_exists'.mp hen
    exact fine_setCached h ha newCached

theorem RefOk.step (h : RefOk w) {e : Event} (hsafe : Safe w e) : RefOk (step w e) := by
  rw [ReferenceCounts.step]
  split
  · next hen => exact (RefOk.fine h hen hsafe).ok
  · exact h

/-- A second use of the only reference to an object touches it after it was deleted. -/
theorem not_safe_outside (h : RefOk w) {e : Event} (hen : Enabled w e) (hsafe : ¬ Safe w e) :
    ¬ EventOk w e := by
  intro hevent
  obtain ⟨hinside, hcounts, -⟩ := hevent hen
  refine hsafe fun _ => ?_
  cases e with
  | assign r src =>
    intro a o hra hsa ha hlast
    by_contra hkept
    rw [op, exec_assign h hen.1] at hinside
    simp only [hsa, lost_gone hra ha hlast hkept, Option.elim_none] at hinside
    exact hinside rfl
  | assignPointer r newPtr =>
    rintro a o hra rfl ha hlast
    by_contra hkept
    rw [op, exec_assignPointer h hen.1] at hinside
    simp only [lost_gone hra ha hlast hkept, Option.elim_none] at hinside
    exact hinside rfl
  | copyObject a old =>
    intro o hold
    have hrun : exec (op (.copyObject a old)) () w = (.ok (), w.setObject a o.copied) := by
      simp [op, exec_bind, exec_fetch hold]
    have hstep : ReferenceCounts.step w (.copyObject a old) = w.setObject a o.copied := by
      rw [ReferenceCounts.step, if_pos hen, hrun]
    rw [hstep] at hcounts
    have hrc := hcounts a o.copied (objects_setObject w a _)
    have hzero : (w.setObject a o.copied).count a = 0 := h.count_free hen.1
    rw [hzero] at hrc
    exact hrc
  | _ => trivial

theorem RefOk.eventOk_iff (h : RefOk w) (e : Event) : EventOk w e ↔ Safe w e := by
  refine ⟨fun hevent => ?_, fun hsafe hen => ?_⟩
  · by_contra hsafe
    by_cases hen : Enabled w e
    · exact not_safe_outside h hen hsafe hevent
    · exact hsafe fun h => absurd h hen
  · have hfine := RefOk.fine h hen hsafe
    have hstep : ReferenceCounts.step w e = (exec (op e) () w).2 := if_pos hen
    rw [hstep]
    exact ⟨hfine.inside, hfine.ok.counted, hfine.deleted⟩

/-- A server with these rows and flags, without objects and references, that caches pointers. -/
def start (rows : Finset TypedOId) (server : OIdIf.Server) : RefWorld :=
  ⟨⟨fun _ => none, fun _ => none, rows, server⟩, ∅, fun _ => .ofOId .none, true⟩

theorem refOk_start (rows : Finset TypedOId) (server : OIdIf.Server) : RefOk (start rows server) where
  counted := fun _ _ h => nomatch h
  alive := fun _ h => absurd h (Finset.notMem_empty _)
  maps := fun _ _ h => nomatch h
  caching := rfl

/-- **A run of events keeps the promises of reference counting exactly when no assignment gives an only
reference the object it has, and no object is copied that is referenced.** -/
theorem reference_counts_iff (rows : Finset TypedOId) (server : OIdIf.Server) (es : List Event) :
    Along step EventOk (start rows server) es ↔ Along step Safe (start rows server) es :=
  along_congr (fun _ _ h hsafe => RefOk.step h hsafe) (fun _ e h => RefOk.eventOk_iff h e)
    (refOk_start rows server)

/-- A new tile and the only reference to it, in a transaction that writes. -/
def oneTile : RefWorld :=
  run step (start ∅ ⟨fun _ => 1, true, false, false, false⟩)
    [.newObject 0 blobOId, .constructPointer 0 (some 0)]

/-- The reference is assigned to itself: the tile is deleted, and touched after that.  A copy of the tile has
a reference count, but no reference. -/
theorem self_assignment : (exec (op (.assign 0 0)) () oneTile).1 = .error .outside ∧
    (∃ o, (step oneTile (.copyObject 1 0)).memory.objects 1 = some o ∧ o.referenceCount = 1 ∧
      (step oneTile (.copyObject 1 0)).count 1 = 0) ∧
    ¬ Along step EventOk (start ∅ ⟨fun _ => 1, true, false, false, false⟩)
      [.newObject 0 blobOId, .constructPointer 0 (some 0), .assign 0 0] := by
  have houtside : (exec (op (.assign 0 0)) () oneTile).1 = .error .outside := rfl
  refine ⟨houtside, ⟨_, rfl, rfl, by decide⟩, fun h => ?_⟩
  exact (h.2.2.1 ⟨by decide, by decide⟩).1 houtside

end ReferenceCounts

end Rasdaman
