import Mathlib.Data.Set.Card
import Responder.Object.Instrument
import Responder.Proofs.Custody.Alone

/-! Locks that their owner may take again. What the locks of a registry are can be told from what was asked of them and
    answered so far: since an object was free last, its owner has taken it as often as the lock says more than he has
    released it, and nobody else has taken it (`Accords`). Each call keeps it so (`Accords.append`), whatever is done
    about other objects meanwhile (`reentrant_of_calls`). -/

namespace Responder

/-- What can be asked of the locks of a registry. -/
inductive LockCall where
  | take (owner : TransactionId) (object : ObjectId)
  | release (owner : TransactionId) (object : ObjectId)
  | releaseAll (owner : TransactionId)
deriving DecidableEq

/-- What is answered: whether it was done, or how many objects were freed. -/
inductive LockAnswer where
  | done (yes : Bool)
  | freed (count : Nat)
deriving DecidableEq

/-- What was asked so far, with the answers. -/
abbrev LockLog := List (LockCall × LockAnswer)

namespace LockLog

/-- How often an owner has taken an object. -/
def taken (log : LockLog) (owner : TransactionId) (object : ObjectId) : Nat :=
  log.count (.take owner object, .done true)

/-- How often an owner has released an object. -/
def released (log : LockLog) (owner : TransactionId) (object : ObjectId) : Nat :=
  log.count (.release owner object, .done true)

/-- Whether an object becomes free by an entry: by a release that leaves its owner none of all that he has taken since
it was free last, or by the release of all that its owner has. -/
def frees (since : LockLog) (object : ObjectId) : LockCall × LockAnswer → Bool
  | (.release owner o, .done true) => o = object && since.taken owner object ≤ since.released owner object + 1
  | (.releaseAll owner, .freed _) => since.released owner object < since.taken owner object
  | _ => false

/-- What was asked since an object last became free. -/
def since (log : LockLog) (object : ObjectId) : LockLog :=
  log.foldl (fun since entry => if frees since object entry then [] else since ++ [entry]) []

theorem since_append (log : LockLog) (object : ObjectId) (entry : LockCall × LockAnswer) :
    since (log ++ [entry]) object =
      if frees (log.since object) object entry then [] else log.since object ++ [entry] := by
  rw [since, List.foldl_append]
  rfl

theorem taken_append (log : LockLog) (entry : LockCall × LockAnswer) (owner : TransactionId) (object : ObjectId) :
    taken (log ++ [entry]) owner object =
      log.taken owner object + if entry = (.take owner object, .done true) then 1 else 0 := by
  rw [taken, List.count_append, List.count_singleton]
  simp only [beq_iff_eq]
  rfl

theorem released_append (log : LockLog) (entry : LockCall × LockAnswer) (owner : TransactionId) (object : ObjectId) :
    released (log ++ [entry]) owner object =
      log.released owner object + if entry = (.release owner object, .done true) then 1 else 0 := by
  rw [released, List.count_append, List.count_singleton]
  simp only [beq_iff_eq]
  rfl

end LockLog

namespace State
variable {Obj : Type}

/-- Asks something of the locks of a registry. -/
def ask (s : State Obj) (number : Nat) : LockCall → LockAnswer × State Obj
  | .take owner object => (s.tryLock number owner object).map .done id
  | .release owner object => (s.unlock number owner object).map .done id
  | .releaseAll owner => (s.releaseLocks number owner).map .freed id

/-- Asks one thing after the other, and keeps a log. -/
def askAll (s : State Obj) (number : Nat) (calls : List LockCall) : LockLog × State Obj :=
  calls.foldl (fun x call => (x.1 ++ [(call, (x.2.ask number call).1)], (x.2.ask number call).2)) ([], s)

theorem askAll_append (s : State Obj) (number : Nat) (calls : List LockCall) (call : LockCall) :
    s.askAll number (calls ++ [call]) =
      ((s.askAll number calls).1 ++ [(call, ((s.askAll number calls).2.ask number call).1)],
        ((s.askAll number calls).2.ask number call).2) := by
  simp only [askAll, List.foldl_append, List.foldl_cons, List.foldl_nil]

end State

namespace Locks
variable {t t' : Locks} {owner who : TransactionId} {object o : ObjectId} {n : Nat} {log : LockLog}
  {entry : LockCall × LockAnswer}

/-! ### What a call does -/

/-- What a call does to the locks, by how often each object is taken. -/
inductive Effect (t t' : Locks) : LockCall × LockAnswer → Prop
  | refused (call : LockCall) (h : t' = t) : Effect t t' (call, .done false)
  | taken (owner : TransactionId) (object : ObjectId)
      (h : ∀ who o, t'.count who o = t.count who o + if who = owner ∧ o = object then 1 else 0) :
      Effect t t' (.take owner object, .done true)
  | released (owner : TransactionId) (object : ObjectId)
      (h : ∀ who o, t.count who o = t'.count who o + if who = owner ∧ o = object then 1 else 0) :
      Effect t t' (.release owner object, .done true)
  | freed (owner : TransactionId) (count : Nat)
      (h : ∀ who o, t'.count who o = if who = owner then 0 else t.count who o) :
      Effect t t' (.releaseAll owner, .freed count)

theorem count_eq_zero_of_ne (hpos : 0 < t.count owner object) (hne : who ≠ owner) : t.count who object = 0 := by
  unfold count at hpos ⊢
  cases hx : t.hold? object with
  | none => rfl
  | some x =>
    simp only [hx] at hpos ⊢
    split at hpos
    · next howner => exact if_neg fun hwho => hne (hwho.symm.trans howner)
    · cases hpos

/-- What one owner has done changes nothing of how often others have taken an object. -/
theorem Changed.count_eq (h : t.Sound) (hchanged : Changed owner t t') (hne : who ≠ owner) (o : ObjectId) :
    t'.count who o = t.count who o :=
  le_antisymm (hchanged.sound.count_le h (fun x hx hwho => (hchanged.others x (hwho ▸ hne)).mp hx) o)
    (h.count_le hchanged.sound (fun x hx hwho => (hchanged.others x (hwho ▸ hne)).mpr hx) o)

theorem Sound.effect_take (h : t.Sound) (ht : t.take? owner object = some t') :
    Effect t t' (.take owner object, .done true) := by
  obtain ⟨hchanged, hcount, -⟩ := h.take? ht
  refine .taken owner object fun who o => ?_
  by_cases hwho : who = owner
  · simp [hwho, hcount]
  · simp [hwho, hchanged.count_eq h hwho]

theorem Sound.effect_release (h : t.Sound) (ht : t.release? owner object = some t') :
    Effect t t' (.release owner object, .done true) := by
  obtain ⟨hchanged, hcount⟩ := h.release? ht
  refine .released owner object fun who o => ?_
  by_cases hwho : who = owner
  · simp [hwho, hcount]
  · simp [hwho, hchanged.count_eq h hwho]

theorem Sound.effect_releaseAll (h : t.Sound) (owner : TransactionId) (n : Nat) :
    Effect t (t.releaseAll owner) (.releaseAll owner, .freed n) := by
  obtain ⟨hchanged, hnone⟩ := h.releaseAll owner
  refine .freed owner n fun who o => ?_
  by_cases hwho : who = owner
  · rw [if_pos hwho, ← Nat.lt_one_iff, ← not_le, hwho, hchanged.sound.count_pos_iff]
    rintro ⟨x, hx, -, howner⟩
    exact hnone x hx howner
  · rw [if_neg hwho, hchanged.count_eq h hwho]

theorem releaseAll_of_heldBy (h : t.heldBy owner = 0) : t.releaseAll owner = t := by
  rw [heldBy, List.length_eq_zero_iff, List.filter_eq_nil_iff] at h
  refine congrArg Locks.mk (List.filter_eq_self.mpr fun x hx => ?_)
  simpa using h x hx

end Locks

namespace State
variable {Obj : Type} {s : State Obj} {number : Nat}

theorem locks_setLocks (hthere : number < s.registries.length) (locks : Locks) :
    ((s.setLocks number locks).registry number).locks = locks := by
  rw [registry_setLocks, if_pos ⟨rfl, hthere⟩]

@[simp] theorem length_setLocks (locks : Locks) : (s.setLocks number locks).registries.length = s.registries.length :=
  List.length_set

theorem fst_tryLock (owner : TransactionId) (object : ObjectId) :
    (s.tryLock number owner object).1 = ((s.registry number).locks.take? owner object).isSome := by
  unfold tryLock
  split <;> simp [*]

theorem fst_unlock (owner : TransactionId) (object : ObjectId) :
    (s.unlock number owner object).1 = ((s.registry number).locks.release? owner object).isSome := by
  unfold unlock
  split <;> simp [*]

/-- A lock that could not be released leaves the state as it was. -/
theorem unlock_of_not {owner : TransactionId} {object : ObjectId} (h : (s.unlock number owner object).1 = false) :
    s.unlock number owner object = (false, s) := by
  unfold unlock at h ⊢
  split
  · next heq => simp [heq] at h
  · rfl

theorem locks_tryLock (hthere : number < s.registries.length) {owner : TransactionId} {object : ObjectId}
    {locks : Locks} (h : (s.registry number).locks.take? owner object = some locks) :
    ((s.tryLock number owner object).2.registry number).locks = locks ∧
      (s.tryLock number owner object).2.registries.length = s.registries.length := by
  simp only [tryLock, h]
  exact ⟨locks_setLocks hthere locks, length_setLocks locks⟩

theorem locks_unlock (hthere : number < s.registries.length) {owner : TransactionId} {object : ObjectId} {locks : Locks}
    (h : (s.registry number).locks.release? owner object = some locks) :
    ((s.unlock number owner object).2.registry number).locks = locks ∧
      (s.unlock number owner object).2.registries.length = s.registries.length := by
  simp only [unlock, h]
  split <;> exact ⟨locks_setLocks hthere locks, length_setLocks locks⟩

theorem locks_releaseLocks (hthere : number < s.registries.length) (owner : TransactionId) :
    (s.releaseLocks number owner).1 = (s.registry number).locks.heldBy owner ∧
      ((s.releaseLocks number owner).2.registry number).locks = (s.registry number).locks.releaseAll owner ∧
        (s.releaseLocks number owner).2.registries.length = s.registries.length := by
  unfold releaseLocks
  dsimp only
  split
  · next hnone => exact ⟨hnone.symm, (Locks.releaseAll_of_heldBy hnone).symm, rfl⟩
  · exact ⟨rfl, locks_setLocks hthere _, length_setLocks _⟩

/-- What a call does to the locks, and that the registry stays where it is. -/
theorem effect_ask (hthere : number < s.registries.length) (hs : (s.registry number).locks.Sound) (call : LockCall) :
    let s' := (s.ask number call).2
    Locks.Effect (s.registry number).locks (s'.registry number).locks (call, (s.ask number call).1) ∧
      (s'.registry number).locks.Sound ∧ s'.registries.length = s.registries.length := by
  cases call with
  | take owner object =>
    cases htake : (s.registry number).locks.take? owner object with
    | none =>
      have hnot : (s.tryLock number owner object).1 = false := by rw [fst_tryLock, htake, Option.isSome_none]
      simp only [ask, tryLock_of_not hnot]
      exact ⟨.refused _ rfl, hs, rfl⟩
    | some locks =>
      have hdone : (s.tryLock number owner object).1 = true := by rw [fst_tryLock, htake, Option.isSome_some]
      obtain ⟨hlocks, hlength⟩ := locks_tryLock hthere htake
      simp only [ask, Prod.map, id, hdone, hlocks]
      exact ⟨hs.effect_take htake, (hs.take? htake).1.sound, hlength⟩
  | release owner object =>
    cases hrelease : (s.registry number).locks.release? owner object with
    | none =>
      have hnot : (s.unlock number owner object).1 = false := by rw [fst_unlock, hrelease, Option.isSome_none]
      simp only [ask, unlock_of_not hnot]
      exact ⟨.refused _ rfl, hs, rfl⟩
    | some locks =>
      have hdone : (s.unlock number owner object).1 = true := by rw [fst_unlock, hrelease, Option.isSome_some]
      obtain ⟨hlocks, hlength⟩ := locks_unlock hthere hrelease
      simp only [ask, Prod.map, id, hdone, hlocks]
      exact ⟨hs.effect_release hrelease, (hs.release? hrelease).1.sound, hlength⟩
  | releaseAll owner =>
    obtain ⟨hcount, hlocks, hlength⟩ := locks_releaseLocks hthere owner
    simp only [ask, Prod.map, hlocks, id]
    exact ⟨hs.effect_releaseAll owner _, (hs.releaseAll owner).1.sound, hlength⟩

end State

/-! ### What the log tells -/

namespace Locks
variable {t t' : Locks} {owner who : TransactionId} {object o : ObjectId} {n : Nat} {log : LockLog}
  {entry : LockCall × LockAnswer}

/-- Since an object was free last, everybody has taken it as often as he has released it and as he still has it. -/
def Accords (t : Locks) (log : LockLog) : Prop :=
  ∀ owner object,
    (log.since object).taken owner object = (log.since object).released owner object + t.count owner object

/-- By an entry an object becomes free if it is somebody's before and nobody's after. -/
theorem Accords.frees_iff (h : t.Accords log) (heffect : Effect t t' entry) (object : ObjectId) :
    LockLog.frees (log.since object) object entry = true ↔
      (∃ who, 0 < t.count who object) ∧ ∀ who, t'.count who object = 0 := by
  cases heffect with
  | refused call hsame =>
    have hkept : LockLog.frees (log.since object) object (call, .done false) = false := by cases call <;> rfl
    rw [hkept, hsame]
    refine iff_of_false Bool.false_ne_true ?_
    rintro ⟨⟨who, hpos⟩, hfree⟩
    exact hpos.ne' (hfree who)
  | taken owner object' hcount =>
    refine iff_of_false Bool.false_ne_true ?_
    rintro ⟨⟨who, hpos⟩, hfree⟩
    have hwho := hcount who object
    have hnone := hfree who
    omega
  | released owner object' hcount =>
    have hlaw := h owner object
    simp only [LockLog.frees, Bool.and_eq_true, decide_eq_true_eq]
    constructor
    · rintro ⟨rfl, hlast⟩
      have hone := hcount owner object'
      rw [if_pos ⟨rfl, rfl⟩] at hone
      refine ⟨⟨owner, by omega⟩, fun who => ?_⟩
      by_cases hwho : who = owner
      · rw [hwho]
        omega
      · have hothers := hcount who object'
        rw [count_eq_zero_of_ne (by omega : 0 < t.count owner object') hwho] at hothers
        omega
    · rintro ⟨⟨who, hpos⟩, hfree⟩
      have hwho := hcount who object
      rw [hfree who] at hwho
      split at hwho
      · next heq =>
        obtain ⟨rfl, rfl⟩ := heq
        exact ⟨rfl, by omega⟩
      · omega
  | freed owner n hcount =>
    have hlaw := h owner object
    simp only [LockLog.frees, decide_eq_true_eq]
    constructor
    · intro hfrees
      have hpos : 0 < t.count owner object := by omega
      refine ⟨⟨owner, hpos⟩, fun who => ?_⟩
      rw [hcount]
      split
      · rfl
      · next hwho => exact count_eq_zero_of_ne hpos hwho
    · rintro ⟨⟨who, hpos⟩, hfree⟩
      have hwho := (hcount who object).symm.trans (hfree who)
      split at hwho
      · next heq =>
        subst heq
        omega
      · omega

theorem Accords.append (h : t.Accords log) (heffect : Effect t t' entry) : t'.Accords (log ++ [entry]) := by
  intro who object
  have hlaw := h who object
  rw [LockLog.since_append]
  split
  · next hfrees =>
    rw [((h.frees_iff heffect object).mp hfrees).2 who]
    rfl
  · next hkept =>
    rw [LockLog.taken_append, LockLog.released_append, hlaw]
    cases heffect with
    | refused call hsame => simp [hsame]
    | taken owner object' hcount =>
      have htaken : (LockCall.take owner object', LockAnswer.done true) = (.take who object, .done true) ↔
          who = owner ∧ object = object' := by simp [eq_comm]
      have hreleased : (LockCall.take owner object', LockAnswer.done true) ≠ (.release who object, .done true) := by
        simp
      rw [if_congr htaken rfl rfl, if_neg hreleased, hcount]
      omega
    | released owner object' hcount =>
      have htaken : (LockCall.release owner object', LockAnswer.done true) ≠ (.take who object, .done true) := by simp
      have hreleased : (LockCall.release owner object', LockAnswer.done true) = (.release who object, .done true) ↔
          who = owner ∧ object = object' := by simp [eq_comm]
      rw [if_neg htaken, if_congr hreleased rfl rfl, hcount]
      omega
    | freed owner n hcount =>
      have hown := h owner object
      simp only [LockLog.frees, decide_eq_true_eq] at hkept
      simp only [Prod.mk.injEq, reduceCtorEq, false_and, if_false, hcount]
      split
      · next hwho =>
        rw [hwho]
        omega
      · rfl

theorem accords_nil : Accords {} [] := fun _ _ => rfl

/-! ### What the table tells -/

theorem Sound.hold?_eq_some_iff_count (h : t.Sound) :
    t.hold? object = some ⟨object, owner, n⟩ ↔ 0 < n ∧ t.count owner object = n := by
  constructor
  · intro hx
    exact ⟨h.positive _ (h.hold?_eq_some_iff.mp hx).1, count_of_hold? hx rfl⟩
  · rintro ⟨hpos, rfl⟩
    obtain ⟨x, hmem, rfl, rfl⟩ := h.count_pos_iff.mp hpos
    have hx := h.hold?_eq_some_iff.mpr ⟨hmem, rfl⟩
    rw [hx, count_of_hold? hx rfl]

theorem holder?_eq_some_iff : t.holder? object = some owner ↔ ∃ x, t.hold? object = some x ∧ x.owner = owner :=
  Option.map_eq_some_iff

theorem Sound.holder?_eq_some_iff_count (h : t.Sound) : t.holder? object = some owner ↔ 0 < t.count owner object := by
  rw [holder?_eq_some_iff]
  constructor
  · rintro ⟨x, hx, rfl⟩
    exact h.count_pos_iff.mpr ⟨x, (h.hold?_eq_some_iff.mp hx).1, (h.hold?_eq_some_iff.mp hx).2, rfl⟩
  · exact fun hpos => ⟨_, h.hold?_eq_some_iff_count.mpr ⟨hpos, rfl⟩, rfl⟩

theorem Sound.holder?_eq_none_iff_count (h : t.Sound) : t.holder? object = none ↔ ∀ who, t.count who object = 0 := by
  simp only [Option.eq_none_iff_forall_ne_some, ne_eq, h.holder?_eq_some_iff_count, not_lt, Nat.le_zero]

theorem isSome_take?_iff : (t.take? owner object).isSome = true ↔
    t.holder? object = none ∨ t.holder? object = some owner := by
  unfold take? holder?
  cases t.hold? object with
  | none => simp
  | some x => by_cases hx : x.owner = owner <;> simp [hx]

theorem isSome_release?_iff : (t.release? owner object).isSome = true ↔ t.holder? object = some owner := by
  unfold release? holder?
  cases t.hold? object with
  | none => simp
  | some x => by_cases hx : x.owner = owner <;> simp [hx]

theorem Sound.hold?_releaseAll (h : t.Sound) (owner : TransactionId) (object : ObjectId) :
    (t.releaseAll owner).hold? object = if t.holder? object = some owner then none else t.hold? object := by
  have hsound := (h.releaseAll owner).1.sound
  refine Option.ext fun x => ?_
  rw [hsound.hold?_eq_some_iff, Locks.releaseAll, List.mem_filter, and_right_comm, ← h.hold?_eq_some_iff, holder?]
  cases t.hold? object with
  | none => simp
  | some y =>
    by_cases hy : y.owner = owner
    · simpa [hy] using fun heq : y = x => heq ▸ hy
    · simpa [hy] using fun heq : y = x => heq ▸ hy

/-- As many locks are held by an owner as there are objects that he holds. -/
theorem Sound.heldBy_eq_ncard (h : t.Sound) (owner : TransactionId) :
    t.heldBy owner = {object | t.holder? object = some owner}.ncard := by
  have hnodup : ((t.holds.filter fun x => x.owner = owner).map Hold.object).Nodup :=
    h.distinct.sublist (List.filter_sublist.map _)
  have hset : {object | t.holder? object = some owner} =
      ((t.holds.filter fun x => x.owner = owner).map Hold.object).toFinset := by
    ext object
    simp [holder?_eq_some_iff, h.hold?_eq_some_iff, and_right_comm]
  rw [hset, Set.ncard_coe_finset, List.toFinset_card_of_nodup hnodup, List.length_map, heldBy]

end Locks

namespace State
variable {Obj : Type} {s : State Obj} {number : Nat}

theorem accords_askAll (hthere : number < s.registries.length) (hnew : (s.registry number).locks = {})
    (calls : List LockCall) :
    let t := (s.askAll number calls).2
    number < t.registries.length ∧ (t.registry number).locks.Sound ∧
      (t.registry number).locks.Accords (s.askAll number calls).1 := by
  induction calls using List.reverseRecOn with
  | nil => exact ⟨hthere, hnew ▸ Locks.sound_nil, hnew ▸ Locks.accords_nil⟩
  | append_singleton calls call ih =>
    obtain ⟨hthere, hsound, haccords⟩ := ih
    obtain ⟨heffect, hsound', hlength⟩ := effect_ask hthere hsound call
    rw [askAll_append]
    exact ⟨hlength ▸ hthere, hsound', haccords.append heffect⟩

/-- Whatever is asked of the locks of a registry that were all free at first: an object has one owner at most, who has
taken it as often as its lock says more than he has released it since it was free last (which the log tells); a lock is
given to whoever asks for it while the object is free or his own, and taken back from its owner only, and nothing is
changed otherwise; and the release of all that an owner has frees just the objects that are his, which it counts. -/
theorem reentrant_of_calls (hthere : number < s.registries.length) (hnew : (s.registry number).locks = {})
    (calls : List LockCall) :
    let log := (s.askAll number calls).1
    let t := (s.askAll number calls).2
    let locks := (t.registry number).locks
    (∀ x ∈ locks.holds, ∀ y ∈ locks.holds, x.object = y.object → x = y) ∧
    (∀ call object, LockLog.frees (log.since object) object (call, (t.ask number call).1) = true ↔
      locks.holder? object ≠ none ∧ ((t.ask number call).2.registry number).locks.holder? object = none) ∧
    (∀ object owner count, locks.hold? object = some ⟨object, owner, count⟩ ↔
      0 < count ∧ (log.since object).taken owner object = (log.since object).released owner object + count) ∧
    (∀ object owner, locks.holder? object = some owner ↔
      (log.since object).released owner object < (log.since object).taken owner object) ∧
    (∀ owner object,
      ((t.tryLock number owner object).1 = true ↔ locks.holder? object = none ∨ locks.holder? object = some owner) ∧
      ((t.tryLock number owner object).1 = false → (t.tryLock number owner object).2 = t) ∧
      ((t.unlock number owner object).1 = true ↔ locks.holder? object = some owner) ∧
      ((t.unlock number owner object).1 = false → (t.unlock number owner object).2 = t)) ∧
    ∀ owner, (t.releaseLocks number owner).1 = {object | locks.holder? object = some owner}.ncard ∧
      ∀ object, ((t.releaseLocks number owner).2.registry number).locks.hold? object =
        if locks.holder? object = some owner then none else locks.hold? object := by
  intro log t locks
  obtain ⟨hthere, hsound, haccords⟩ : number < t.registries.length ∧ locks.Sound ∧ locks.Accords log :=
    accords_askAll hthere hnew calls
  refine ⟨fun x hx y hy => List.inj_on_of_nodup_map hsound.distinct hx hy, fun call object => ?_,
    fun object owner count => ?_, fun object owner => ?_, fun owner object => ⟨?_, ?_, ?_, ?_⟩, fun owner => ?_⟩
  · obtain ⟨heffect, hsound', -⟩ := effect_ask hthere hsound call
    rw [haccords.frees_iff heffect object, hsound'.holder?_eq_none_iff_count, ne_eq, hsound.holder?_eq_none_iff_count]
    simp only [not_forall, Nat.pos_iff_ne_zero]
  · rw [hsound.hold?_eq_some_iff_count, haccords owner object]
    omega
  · rw [hsound.holder?_eq_some_iff_count, haccords owner object]
    omega
  · rw [fst_tryLock]
    exact Locks.isSome_take?_iff
  · exact fun hnot => congrArg Prod.snd (tryLock_of_not hnot)
  · rw [fst_unlock]
    exact Locks.isSome_release?_iff
  · exact fun hnot => congrArg Prod.snd (unlock_of_not hnot)
  · obtain ⟨hcount, hlocks, -⟩ := locks_releaseLocks hthere owner
    rw [hcount, hlocks]
    exact ⟨hsound.heldBy_eq_ncard owner, hsound.hold?_releaseAll owner⟩

/-- A registry with all locks free. -/
def stall : State Instrument where
  objects _ := default
  registries := [{}]
  outstanding := ⟨.seconds 300, []⟩

/-- Two owners: the first one takes an object twice and releases it once, the second one is refused it meanwhile and
takes another. -/
def borrowing : List LockCall :=
  [.take ⟨0⟩ ⟨7⟩, .take ⟨0⟩ ⟨7⟩, .take ⟨1⟩ ⟨7⟩, .release ⟨1⟩ ⟨7⟩, .take ⟨1⟩ ⟨8⟩, .release ⟨0⟩ ⟨7⟩]

/-- The first owner still has what he took, and once only. -/
theorem reentrant_of_borrowing :
    let log := (stall.askAll 0 borrowing).1
    let t := (stall.askAll 0 borrowing).2
    log.map Prod.snd = [.done true, .done true, .done false, .done false, .done true, .done true] ∧
      (t.registry 0).locks.hold? ⟨7⟩ = some ⟨⟨7⟩, ⟨0⟩, 1⟩ ∧ (t.tryLock 0 ⟨1⟩ ⟨7⟩).1 = false ∧
        (t.unlock 0 ⟨0⟩ ⟨7⟩).1 = true ∧ ((t.releaseLocks 0 ⟨1⟩).2.registry 0).locks.hold? ⟨8⟩ = none := by
  intro log t
  obtain ⟨-, -, hslot, howner, hcall, hall⟩ :=
    reentrant_of_calls (show 0 < stall.registries.length by decide) (show (stall.registry 0).locks = {} from rfl)
      borrowing
  have hheld : (t.registry 0).locks.holder? ⟨7⟩ = some ⟨0⟩ := (howner _ _).mpr (by decide +kernel)
  have hother : (t.registry 0).locks.holder? ⟨8⟩ = some ⟨1⟩ := (howner _ _).mpr (by decide +kernel)
  refine ⟨by decide +kernel, (hslot _ _ _).mpr (by decide +kernel), ?_, (hcall _ _).2.2.1.mpr hheld, ?_⟩
  · rw [← Bool.not_eq_true, (hcall _ _).1, hheld]
    decide
  · exact ((hall ⟨1⟩).2 ⟨8⟩).trans (if_pos hother)

end State
end Responder
