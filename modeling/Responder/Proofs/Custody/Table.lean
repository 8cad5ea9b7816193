import Mathlib.Data.List.Nodup
import Responder.Proofs.Locks

/-! Lock tables. In a sound table an object has one lock at most, which was taken at least once. Taking and releasing
    locks keeps a table sound, changes nothing that others hold (`Locks.Changed`), and counts up and down by one
    (`Locks.Sound.take?`, `Locks.Sound.release?`); to release a lock just taken undoes the taking. -/

namespace Responder.Locks

variable {t t' : Locks} {owner : TransactionId} {object o : ObjectId} {x y : Hold} {f : Hold → Option Hold}

/-- An object has one lock at most, which was taken at least once. -/
structure Sound (t : Locks) : Prop where
  distinct : (t.holds.map Hold.object).Nodup
  positive : ∀ h ∈ t.holds, 1 ≤ h.count

/-- How often a transaction has taken a lock and not released it yet. -/
def count (t : Locks) (owner : TransactionId) (object : ObjectId) : Nat :=
  match t.hold? object with
  | some h => if h.owner = owner then h.count else 0
  | none => 0

/-- The table has changed in what one transaction holds. -/
structure Changed (owner : TransactionId) (t t' : Locks) : Prop where
  sound : t'.Sound
  others : ∀ h, h.owner ≠ owner → (h ∈ t'.holds ↔ h ∈ t.holds)

theorem Sound.hold?_eq_some_iff (h : t.Sound) : t.hold? object = some x ↔ x ∈ t.holds ∧ x.object = object := by
  constructor
  · intro hx
    exact ⟨List.mem_of_find?_eq_some hx, by simpa using List.find?_some hx⟩
  · rintro ⟨hx, rfl⟩
    cases hy : t.hold? x.object with
    | none =>
      have hne : x.object ≠ x.object := by simpa using List.find?_eq_none.mp hy x hx
      exact absurd rfl hne
    | some y =>
      have hobject : y.object = x.object := by simpa using List.find?_some hy
      rw [List.inj_on_of_nodup_map h.distinct (List.mem_of_find?_eq_some hy) hx hobject]

theorem hold?_eq_none_iff : t.hold? object = none ↔ ∀ x ∈ t.holds, x.object ≠ object := by
  simp [hold?, List.find?_eq_none]

/-- Where the lock of an object is held by somebody, nobody else has it. -/
theorem Sound.count_pos_iff (h : t.Sound) :
    1 ≤ t.count owner object ↔ ∃ x ∈ t.holds, x.object = object ∧ x.owner = owner := by
  unfold count
  cases hx : t.hold? object with
  | none =>
    have hnone := hold?_eq_none_iff.mp hx
    exact ⟨fun hpos => absurd hpos (Nat.not_succ_le_zero 0), fun ⟨y, hy, hobject, _⟩ => absurd hobject (hnone y hy)⟩
  | some x =>
    obtain ⟨hmem, hobject⟩ := h.hold?_eq_some_iff.mp hx
    constructor
    · intro hpos
      by_cases howner : x.owner = owner
      · exact ⟨x, hmem, hobject, howner⟩
      · simp [howner] at hpos
    · rintro ⟨y, hy, hyobject, hyowner⟩
      obtain rfl := List.inj_on_of_nodup_map h.distinct hmem hy (hobject.trans hyobject.symm)
      simpa [hyowner] using h.positive x hmem

theorem mem_adjust : y ∈ (t.adjust object f).holds ↔
    ∃ x ∈ t.holds, (x.object ≠ object ∧ y = x) ∨ (x.object = object ∧ f x = some y) := by
  rw [adjust, List.mem_filterMap]
  refine exists_congr fun x => and_congr_right fun _ => ?_
  by_cases hx : x.object = object
  · simp [hx]
  · simp [hx, eq_comm]

/-- The hold of a transaction is changed, or given up. -/
theorem Sound.adjust (h : t.Sound) (hx : x ∈ t.holds) (hobject : x.object = object) (howner : x.owner = owner)
    (hf : ∀ y, f x = some y → y.object = x.object ∧ y.owner = x.owner ∧ 1 ≤ y.count) :
    Changed owner t (t.adjust object f) := by
  have honly {y : Hold} (hy : y ∈ t.holds) (hyobject : y.object = object) : y = x :=
    List.inj_on_of_nodup_map h.distinct hy hx (hyobject.trans hobject.symm)
  refine ⟨⟨?_, fun y hy => ?_⟩, fun y hy => ?_⟩
  · refine h.distinct.sublist ?_
    have hsub : ∀ l : List Hold, (∀ y ∈ l, y ∈ t.holds) →
        ((l.filterMap fun h => if h.object = object then f h else some h).map Hold.object).Sublist
          (l.map Hold.object) := by
      intro l hl
      induction l with
      | nil => exact .slnil
      | cons y l ih =>
        obtain ⟨hy, hl⟩ := List.forall_mem_cons.mp hl
        rw [List.filterMap_cons]
        split
        · exact (ih hl).cons _
        · next z hz =>
          have hkept : z.object = y.object := by
            split at hz
            · next hyobject =>
              rw [honly hy hyobject] at hz ⊢
              exact (hf z hz).1
            · exact Option.some.inj hz ▸ rfl
          rw [List.map_cons, List.map_cons, hkept]
          exact (ih hl).cons_cons _
    exact hsub t.holds fun _ => id
  · obtain ⟨z, hz, ⟨-, rfl⟩ | ⟨hzobject, hzy⟩⟩ := mem_adjust.mp hy
    · exact h.positive y hz
    · rw [honly hz hzobject] at hzy
      exact (hf y hzy).2.2
  · rw [mem_adjust]
    constructor
    · rintro ⟨z, hz, ⟨-, rfl⟩ | ⟨hzobject, hzy⟩⟩
      · exact hz
      · rw [honly hz hzobject] at hzy
        exact absurd ((hf y hzy).2.1.trans howner) hy
    · intro hmem
      exact ⟨y, hmem, Or.inl ⟨fun hyobject => hy (honly hmem hyobject ▸ howner), rfl⟩⟩

theorem count_of_hold? (hx : t.hold? object = some x) (howner : x.owner = owner) : t.count owner object = x.count := by
  simp only [count, hx, howner, if_true]

/-- What is counted for an object has to do with its hold alone. -/
theorem count_congr (h : t'.hold? object = t.hold? object) : t'.count owner object = t.count owner object := by
  rw [count, count, h]

/-- Who keeps his holds has taken each lock as often as before. -/
theorem Sound.count_le (h : t.Sound) (h' : t'.Sound) (hkept : ∀ x ∈ t.holds, x.owner = owner → x ∈ t'.holds)
    (object : ObjectId) : t.count owner object ≤ t'.count owner object := by
  unfold count
  cases hx : t.hold? object with
  | none => exact Nat.zero_le _
  | some x =>
    obtain ⟨hmem, hobject⟩ := h.hold?_eq_some_iff.mp hx
    by_cases howner : x.owner = owner
    · exact Nat.le_of_eq (by rw [h'.hold?_eq_some_iff.mpr ⟨hkept x hmem howner, hobject⟩])
    · simp [howner]

theorem Sound.hold?_adjust (h : t.Sound) (hx : x ∈ t.holds) (hobject : x.object = object)
    (hsound : (t.adjust object f).Sound) (hf : ∀ y, f x = some y → y.object = x.object) :
    (t.adjust object f).hold? object = f x ∧ ∀ o ≠ object, (t.adjust object f).hold? o = t.hold? o := by
  have honly {y : Hold} (hy : y ∈ t.holds) (hyobject : y.object = object) : y = x :=
    List.inj_on_of_nodup_map h.distinct hy hx (hyobject.trans hobject.symm)
  constructor
  · refine Option.ext fun y => ?_
    rw [hsound.hold?_eq_some_iff, mem_adjust]
    constructor
    · rintro ⟨⟨z, hz, ⟨hzobject, rfl⟩ | ⟨hzobject, hzy⟩⟩, hy⟩
      · exact absurd hy hzobject
      · rwa [honly hz hzobject] at hzy
    · intro hy
      exact ⟨⟨x, hx, Or.inr ⟨hobject, hy⟩⟩, (hf y hy).trans hobject⟩
  · intro o ho
    refine Option.ext fun y => ?_
    rw [hsound.hold?_eq_some_iff, h.hold?_eq_some_iff, mem_adjust]
    refine and_congr_left fun hy => ⟨?_, fun hmem => ⟨y, hmem, Or.inl ⟨fun hyo => ho (hy.symm.trans hyo), rfl⟩⟩⟩
    rintro ⟨z, hz, ⟨-, rfl⟩ | ⟨hzobject, hzy⟩⟩
    · exact hz
    · rw [honly hz hzobject] at hzy
      exact absurd (hy.symm.trans ((hf y hzy).trans hobject)) ho

theorem sound_nil : Sound {} := ⟨.nil, by simp⟩

theorem count_add (hat : t'.count owner object = t.count owner object + 1)
    (helse : ∀ o ≠ object, t'.hold? o = t.hold? o) (o : ObjectId) :
    t'.count owner o = t.count owner o + if o = object then 1 else 0 := by
  by_cases ho : o = object
  · rw [ho, hat, if_pos rfl]
  · rw [count_congr (helse o ho), if_neg ho, Nat.add_zero]

/-- A lock that nobody has is taken. -/
theorem Sound.take_free (h : t.Sound) (hfree : t.hold? object = none) (owner : TransactionId) :
    let t' : Locks := ⟨t.holds ++ [⟨object, owner, 1⟩]⟩
    Changed owner t t' ∧ (∀ o, t'.count owner o = t.count owner o + if o = object then 1 else 0) ∧
      t'.release? owner object = some t := by
  intro t'
  have hnone := hold?_eq_none_iff.mp hfree
  have hsound : t'.Sound := by
    refine ⟨?_, List.forall_mem_append.mpr ⟨h.positive, by simp⟩⟩
    rw [List.map_append, List.nodup_append]
    refine ⟨h.distinct, by simp, ?_⟩
    intro a ha b hb
    obtain ⟨x, hx, rfl⟩ := List.mem_map.mp ha
    rw [List.mem_singleton.mp hb]
    exact hnone x hx
  have hnew : t'.hold? object = some ⟨object, owner, 1⟩ := hsound.hold?_eq_some_iff.mpr ⟨by simp [t'], rfl⟩
  refine ⟨⟨hsound, fun y hy => ?_⟩, count_add ?_ fun o ho => ?_, ?_⟩
  · rw [List.mem_append, List.mem_singleton, or_iff_left]
    rintro rfl
    exact hy rfl
  · have hzero : t.count owner object = 0 := by rw [count, hfree]
    rw [count_of_hold? hnew rfl, hzero]
  · rw [hold?, hold?, List.find?_append]
    simp [Ne.symm ho]
  · simp only [Locks.release?, hnew, if_true, Locks.adjust, Option.some.injEq]
    rw [List.filterMap_append]
    have hsame : t.holds.filterMap (fun h => if h.object = object then
        if h.count ≤ 1 then none else some { h with count := h.count - 1 } else some h) = t.holds :=
      (List.filterMap_congr fun x hx => if_neg (hnone x hx)).trans List.filterMap_some
    rw [hsame]
    simp

/-- A lock is taken once more. -/
theorem Sound.take_again (h : t.Sound) (hx : t.hold? object = some x) (howner : x.owner = owner) :
    let t' := t.adjust object fun h => some { h with count := h.count + 1 }
    Changed owner t t' ∧ (∀ o, t'.count owner o = t.count owner o + if o = object then 1 else 0) ∧
      t'.release? owner object = some t := by
  intro t'
  obtain ⟨hmem, hobject⟩ := h.hold?_eq_some_iff.mp hx
  let f (h : Hold) : Option Hold := some { h with count := h.count + 1 }
  have hf : ∀ y, f x = some y → y.object = x.object ∧ y.owner = x.owner ∧ 1 ≤ y.count := by
    rintro _ ⟨⟩
    exact ⟨rfl, rfl, Nat.le_add_left _ _⟩
  have hchanged : Changed owner t t' := h.adjust hmem hobject howner hf
  obtain ⟨hat, helse⟩ := h.hold?_adjust hmem hobject hchanged.sound fun y hy => (hf y hy).1
  refine ⟨hchanged, count_add ?_ helse, ?_⟩
  · rw [count_of_hold? hat howner, count_of_hold? hx howner]
  · have hat' : t'.hold? object = some { x with count := x.count + 1 } := hat
    simp only [Locks.release?, hat', howner, if_true, Option.some.injEq]
    refine congrArg Locks.mk ?_
    simp only [t', Locks.adjust, List.filterMap_filterMap]
    refine Eq.trans (List.filterMap_congr fun y hy => ?_) List.filterMap_some
    have hpositive := h.positive y hy
    by_cases hyobject : y.object = object
    · have hlt : ¬y.count + 1 ≤ 1 := by omega
      simp only [hyobject, if_true, Option.bind_some, if_neg hlt, Nat.add_sub_cancel]
      rw [← hyobject]
    · simp only [hyobject, if_false, Option.bind_some]

/-- To take a lock changes what its owner holds, by one. Releasing it undoes that. -/
theorem Sound.take? (h : t.Sound) (ht : t.take? owner object = some t') : Changed owner t t' ∧
    (∀ o, t'.count owner o = t.count owner o + if o = object then 1 else 0) ∧ t'.release? owner object = some t := by
  unfold Locks.take? at ht
  cases hx : t.hold? object with
  | none =>
    rw [hx] at ht
    exact Option.some.inj ht ▸ h.take_free hx owner
  | some x =>
    rw [hx] at ht
    obtain ⟨howner, ht'⟩ := Option.ite_none_right_eq_some.mp ht
    exact Option.some.inj ht' ▸ h.take_again hx howner

/-- To take a lock changes nothing about the other ones. -/
theorem Sound.hold?_take? (h : t.Sound) (ht : t.take? owner object = some t') (ho : o ≠ object) :
    t'.hold? o = t.hold? o := by
  have hsound : t'.Sound := (h.take? ht).1.sound
  unfold Locks.take? at ht
  cases hx : t.hold? object with
  | none =>
    rw [hx] at ht
    rw [← Option.some.inj ht, hold?, hold?, List.find?_append]
    simp [ho.symm]
  | some x =>
    rw [hx] at ht
    obtain ⟨hmem, hobject⟩ := h.hold?_eq_some_iff.mp hx
    obtain rfl := Option.some.inj (Option.ite_none_right_eq_some.mp ht).2
    refine (h.hold?_adjust hmem hobject hsound fun y hy => ?_).2 o ho
    rw [← Option.some.inj hy]

/-- To release a lock changes what its owner holds, by one. -/
theorem Sound.release? (h : t.Sound) (ht : t.release? owner object = some t') : Changed owner t t' ∧
    ∀ o, t.count owner o = t'.count owner o + if o = object then 1 else 0 := by
  unfold Locks.release? at ht
  cases hx : t.hold? object with
  | none =>
    rw [hx] at ht
    cases ht
  | some x =>
    rw [hx] at ht
    obtain ⟨hmem, hobject⟩ := h.hold?_eq_some_iff.mp hx
    let f (h : Hold) : Option Hold := if h.count ≤ 1 then none else some { h with count := h.count - 1 }
    obtain ⟨howner, ht'⟩ : x.owner = owner ∧ t.adjust object f = t' := by simpa using ht
    subst ht'
    have hf : ∀ y, f x = some y → y.object = x.object ∧ y.owner = x.owner ∧ 1 ≤ y.count := by
      intro y hy
      obtain ⟨hlt, hleft⟩ := Option.ite_none_left_eq_some.mp hy
      obtain rfl := Option.some.inj hleft
      exact ⟨rfl, rfl, by simp only; omega⟩
    have hchanged := h.adjust hmem hobject howner hf
    obtain ⟨hat, helse⟩ := h.hold?_adjust hmem hobject hchanged.sound fun y hy => (hf y hy).1
    refine ⟨hchanged, count_add ?_ fun o ho => (helse o ho).symm⟩
    have hpositive := h.positive x hmem
    rw [count_of_hold? hx howner]
    by_cases hlast : x.count ≤ 1
    · have hnone : (t.adjust object f).hold? object = none := hat.trans (if_pos hlast)
      have hzero : (t.adjust object f).count owner object = 0 := by rw [count, hnone]
      omega
    · have hleft : (t.adjust object f).hold? object = some { x with count := x.count - 1 } := hat.trans (if_neg hlast)
      rw [count_of_hold? hleft howner]
      exact (Nat.sub_add_cancel hpositive).symm

/-- To release all locks of a transaction leaves it none. -/
theorem Sound.releaseAll (h : t.Sound) (owner : TransactionId) : Changed owner t (t.releaseAll owner) ∧
    ∀ x ∈ (t.releaseAll owner).holds, x.owner ≠ owner := by
  refine ⟨⟨⟨h.distinct.sublist (List.filter_sublist.map _), fun x hx => ?_⟩, fun y hy => ?_⟩, fun x hx => ?_⟩
  · exact h.positive x (List.mem_filter.mp hx).1
  · simp [Locks.releaseAll, hy]
  · simpa using (List.mem_filter.mp hx).2

end Responder.Locks
