import Mathlib.Data.List.TakeWhile
import Responder.Proofs.Custody.Touch

/-! Look-ups that meet locks of others. A look-up that goes on alone passes over the candidates that others hold, and
    finds the first of the rest that the query accepts. It has been late just if it has passed over a candidate that
    somebody else holds, and says so in the end (`Lookup.run_picks`). -/

namespace Responder

variable {Obj : Type}

namespace Locks

variable {t t' : Locks} {owner : TransactionId} {object : ObjectId}

/-- Somebody else holds the lock of the object. -/
def withholds (t : Locks) (owner : TransactionId) (object : ObjectId) : Bool :=
  (t.hold? object).any fun h => h.owner ≠ owner

theorem take?_isNone : (t.take? owner object).isNone = t.withholds owner object := by
  unfold take? withholds
  cases t.hold? object with
  | none => rfl
  | some h => by_cases howner : h.owner = owner <;> simp [howner]

theorem Sound.withholds_iff (h : t.Sound) :
    t.withholds owner object = true ↔ ∃ x ∈ t.holds, x.object = object ∧ x.owner ≠ owner := by
  simp only [withholds, Option.any_eq_true, h.hold?_eq_some_iff, decide_eq_true_eq, and_assoc]

/-- What a transaction does with its own locks makes no difference to what others withhold from it. -/
theorem Changed.withholds_eq (h : t.Sound) (hchanged : Changed owner t t') (object : ObjectId) :
    t'.withholds owner object = t.withholds owner object := by
  rw [Bool.eq_iff_iff, h.withholds_iff, hchanged.sound.withholds_iff]
  constructor
  · rintro ⟨x, hx, hobject, howner⟩
    exact ⟨x, (hchanged.others x howner).mp hx, hobject, howner⟩
  · rintro ⟨x, hx, hobject, howner⟩
    exact ⟨x, (hchanged.others x howner).mpr hx, hobject, howner⟩

end Locks

/-- Somebody else holds the lock of the object in a registry. -/
abbrev State.withholds (s : State Obj) (number : Nat) (owner : TransactionId) (object : ObjectId) : Bool :=
  (s.registry number).locks.withholds owner object

theorem State.tryLock_fst (s : State Obj) (number : Nat) (owner : TransactionId) (object : ObjectId) :
    (s.tryLock number owner object).1 = !s.withholds number owner object := by
  rw [withholds, ← Locks.take?_isNone, tryLock]
  cases (s.registry number).locks.take? owner object <;> rfl

/-- Behind a candidate there are those that stand behind it. -/
theorem Registry.candidatesAfter_of_suffix {r : Registry} (h : Ordered r.entries) {q : Query} {e : Entry}
    {rest : List Entry} (hsuffix : e :: rest <:+ r.candidates q) : r.candidatesAfter q e.region = rest := by
  have hsame : r.candidatesAfter q e.region =
      (r.candidates q).filter fun x => Region.order x.region e.region == .gt := by
    rw [candidatesAfter_eq_filter h, candidates_eq_filter, List.filter_comm]
  have hsorted := h.candidates q
  obtain ⟨before, hcandidates⟩ := hsuffix
  rw [← hcandidates] at hsorted hsame
  obtain ⟨-, hbehind, hbefore⟩ := List.pairwise_append.mp hsorted
  have hnone : before.filter (fun x => Region.order x.region e.region == .gt) = [] := by
    refine List.filter_eq_nil_iff.mpr fun x hx => ?_
    simp [hbefore x hx e List.mem_cons_self]
  have hall : rest.filter (fun x => Region.order x.region e.region == .gt) = rest := by
    refine List.filter_eq_self.mpr fun x hx => ?_
    rw [beq_iff_eq, Std.OrientedCmp.gt_iff_lt]
    exact (List.pairwise_cons.mp hbehind).1 x hx
  have hself : Region.order e.region e.region = .eq := Std.ReflCmp.compare_self
  rw [hsame, List.filter_append, hnone, List.filter_cons_of_neg (by simp [hself]), hall, List.nil_append]

namespace Lookup

variable {l : Lookup} {s t : State Obj}

/-- The look-up would have to wait for the lock of the entry. -/
def withheld (l : Lookup) (s : State Obj) (e : Entry) : Bool :=
  (l.locking? s).any fun terms => s.withholds l.registry terms.owner e.object

theorem late_of_heldStatus {late : Bool} : heldStatus late = .lockedAfterTimeout ↔ late = true := by
  cases late <;> simp [heldStatus]

theorem heldStatus_cases (late : Bool) : heldStatus late = .locked ∨ heldStatus late = .lockedAfterTimeout := by
  cases late <;> simp [heldStatus]

theorem nothing_cases (late : Bool) : (nothing late).lock = .timedOut ∨ (nothing late).lock = .notRequired := by
  cases late <;> simp [nothing]

/-- What a look-up says of its locking, by whether it has been late and by what it has found. -/
def verdict (l : Lookup) (s : State Obj) (late : Bool) (found : Option Entry) : LockStatus :=
  match found with
  | none => (nothing late).lock
  | some _ => if (l.locking? s).isSome then heldStatus late else .notRequired

variable [ManagedObject Obj]

/-- The look-up does not stop at the entry: somebody else holds its lock, or the query does not accept it. -/
def passes (l : Lookup) (s : State Obj) (e : Entry) : Bool :=
  l.withheld s e || !l.query.accepts (s.objects e.object)

/-- What a look-up makes of some entries alone, if it has been late already or not. It has been late in the end if
somebody else holds one of the locks on its way. -/
structure Picks (l : Lookup) (s : State Obj) (entries : List Entry) (late : Bool) (f : Finding) : Prop where
  entry : f.entry = (entries.filter fun e => !l.withheld s e).find? fun e => l.query.accepts (s.objects e.object)
  lock : f.lock = l.verdict s (late || (entries.takeWhile (l.passes s)).any (l.withheld s)) f.entry

section Entries
variable {e : Entry} {entries rest : List Entry} {late : Bool} {f : Finding}

theorem picks_nil (late : Bool) : l.Picks s [] late (nothing late) := ⟨rfl, by simp [nothing, verdict]⟩

/-- An entry that is free, and that the query accepts. -/
theorem picks_accepted {locked : Option LockTerms} (hlocked : l.locking? s = locked) (hfree : l.withheld s e = false)
    (haccept : l.query.accepts (s.objects e.object) = true) :
    l.Picks s (e :: rest) late ⟨some e, if locked.isSome then heldStatus late else .notRequired⟩ :=
  ⟨by simp [hfree, haccept], by simp [verdict, passes, hlocked, hfree, haccept]⟩

/-- An entry that is free, and that the query does not accept. -/
theorem Picks.rejected (h : l.Picks s rest late f) (hfree : l.withheld s e = false)
    (hreject : l.query.accepts (s.objects e.object) = false) : l.Picks s (e :: rest) late f :=
  ⟨by simp [h.entry, hfree, hreject], by simp [h.lock, passes, hfree, hreject]⟩

/-- An entry that somebody else holds. -/
theorem Picks.passed (h : l.Picks s rest true f) (hheld : l.withheld s e = true) :
    l.Picks s (e :: rest) late f :=
  ⟨by simp [h.entry, hheld], by simp [h.lock, passes, hheld]⟩

theorem Picks.entry_eq_find? (h : l.Picks s entries late f) : f.entry = entries.find? fun e => !l.passes s e := by
  rw [h.entry, List.find?_filter]
  refine congrArg (entries.find? ·) (funext fun e => ?_)
  simp [passes]

/-- A look-up that finds nothing has run out of time if it was late, or has passed over a lock of somebody else. -/
theorem Picks.timedOut_iff (h : l.Picks s entries late f) (hnone : f.entry = none) :
    f.lock = .timedOut ↔ late = true ∨ ∃ e ∈ entries, l.withheld s e = true := by
  have hall : entries.takeWhile (l.passes s) = entries := by
    have hpasses := List.find?_eq_none.mp (h.entry_eq_find?.symm.trans hnone)
    exact List.takeWhile_eq_self_iff.mpr fun e he => by simpa using hpasses e he
  rw [h.lock, hnone, hall, verdict, ← List.any_eq_true, ← Bool.or_eq_true]
  cases late || entries.any (l.withheld s) <;> simp [nothing]

end Entries

variable (hs : (s.registry l.registry).locks.Sound)
include hs

/-- Whatever is done about a contended entry, going through the entries picks what it should if that does. -/
theorem walk_picks {onContention : Option (LockTerms → Entry → Bool → Doing Obj Finding)} {all : List Entry}
    (hwait : ∀ wait, onContention = some wait → ∀ terms e rest late t, s.Later t → e :: rest <:+ all →
      (t.tryLock l.registry terms.owner e.object).1 = false →
        (wait terms e late).Alone s.Later t fun f _ => l.Picks s rest true f) :
    ∀ (entries : List Entry) (late : Bool) (t : State Obj), s.Later t → entries <:+ all →
      (l.walk onContention entries late).Alone s.Later t fun f _ => l.Picks s entries late f
  | [], late, t, ht, _ => picks_nil late
  | e :: rest, late, t, ht, hall => by
    have ih (late : Bool) (u : State Obj) (hu : s.Later u) :=
      walk_picks hwait rest late u hu ((List.suffix_cons e rest).trans hall)
    have hobjects {u : State Obj} (hu : u.bare = t.bare) : u.objects = s.objects := by
      refine (State.objects_eq_of_bare hu).trans ?_
      obtain ⟨now, released, rfl⟩ := ht
      rfl
    simp only [walk, Activity.alone_bind, Activity.alone_get]
    rw [locking?_of_later ht]
    cases hterms : l.locking? s with
    | none =>
      have hfree : l.withheld s e = false := by simp [withheld, hterms]
      simp only [examine, Activity.alone_bind, Activity.alone_get, hobjects rfl]
      split
      · next haccept => exact picks_accepted hterms hfree haccept
      · next hreject => exact (ih late t ht).mono (fun _ => id) fun f u hf => hf.rejected hfree (by simpa using hreject)
    | some terms =>
      have hheld : (t.tryLock l.registry terms.owner e.object).1 = !l.withheld s e := by
        rw [State.tryLock_fst, State.withholds, ht.registry]
        simp [withheld, hterms]
      simp only [Activity.alone_bind, Activity.alone_modifyGet]
      cases htaken : (t.tryLock l.registry terms.owner e.object).1 with
      | true =>
        have hfree : l.withheld s e = false := by simpa [htaken] using hheld
        simp only [if_true, examine, Activity.alone_bind, Activity.alone_get, hobjects (t.bare_tryLock _ _ _)]
        split
        · next haccept => exact picks_accepted hterms hfree haccept
        · next hreject =>
          have hback := ht.trans (State.unlock_tryLock (ht.registry l.registry ▸ hs) htaken)
          exact (ih late _ hback).mono (fun _ => id) fun f u hf => hf.rejected hfree (by simpa using hreject)
      | false =>
        have hheld : l.withheld s e = true := by simpa [htaken] using hheld
        rw [State.tryLock_of_not htaken]
        simp only [Bool.false_eq_true, if_false]
        cases onContention with
        | none => exact (ih true t ht).mono (fun _ => id) fun f u hf => hf.passed hheld
        | some wait =>
          exact (hwait wait rfl terms e rest late t ht hall htaken).mono (fun _ => id) fun f u hf => hf.passed hheld

theorem search_picks (hordered : Registry.Ordered (s.registry l.registry).entries) :
    ∀ (patience : Nat) (entries : List Entry) (late : Bool) (t : State Obj), s.Later t →
      entries <:+ (s.registry l.registry).candidates l.query →
        (l.search patience entries late).Alone s.Later t fun f _ => l.Picks s entries late f
  | 0, entries, late, t, ht, hall => walk_picks hs (by simp) entries late t ht hall
  | patience + 1, entries, late, t, ht, hall => by
    refine walk_picks hs ?_ entries late t ht hall
    rintro _ ⟨⟩ terms e rest late t ht hsuffix hheld
    simp only [resume, Activity.alone_bind]
    refine Activity.alone_await ht hheld fun u hu => ?_
    have hlater := ht.trans hu
    simp only [Bool.false_eq_true, if_false, Activity.alone_bind, Activity.alone_get]
    -- The registry is read anew, and has not changed.
    rw [hlater.registry, Registry.candidatesAfter_of_suffix hordered hsuffix]
    exact search_picks hordered patience rest true u hlater ((List.suffix_cons e rest).trans hsuffix)

/-- A look-up alone finds the first candidate that is free and that the query accepts. -/
theorem run_picks (hordered : Registry.Ordered (s.registry l.registry).entries) (patience : Nat) :
    (l.run patience).Alone s.Later s fun f _ => l.Picks s ((s.registry l.registry).candidates l.query) false f := by
  simp only [run, Activity.alone_bind, Activity.alone_get]
  exact search_picks hs hordered _ _ false s (.refl s) (List.suffix_refl _)

end Lookup
end Responder
