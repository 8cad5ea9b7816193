import Mathlib.Data.List.Induction
import Mathlib.Data.List.Nodup
import Responder.Request.Outstanding

/-! Sequences of calls on a list of requests. Which requests are outstanding, and until when, is told by the
    calls alone: a request has the deadline of its last tracking, unless it was removed or expired since then
    (`due?`). The list has one entry for each of them, with that deadline (`follows_of_calls`), so a call acts on
    what is parked request by request. -/

namespace Responder.Outstanding

variable {α : Type} {t t' : Outstanding α} {id : TransactionId} {a : α} {now d : Instant}

/-! ### Calls -/

/-- What is asked of a list of requests. -/
inductive Call (α : Type) where
  | track (id : TransactionId) (now : Instant)
  | park (id : TransactionId) (a : α)
  | take
  | remove (id : TransactionId)
  | expire (now : Instant)

/-- What is answered. -/
inductive Reply (α : Type) where
  | done
  /-- The state that could not be parked is given back. -/
  | refused (id : TransactionId) (a : α)
  | taken (parked : List (TransactionId × α))
  | removed (found : Bool)
  | expired (gone : List (TransactionId × Option α))

/-- Answers a call, and gives what becomes of the list. -/
def perform (t : Outstanding α) : Call α → Reply α × Outstanding α
  | .track id now => (.done, t.track id now)
  | .park id a =>
    match t.park? id a with
    | some t' => (.done, t')
    | none => (.refused id a, t)
  | .take => (.taken t.takeParked.1, t.takeParked.2)
  | .remove id => (.removed (t.contains id), t.remove id)
  | .expire now => (.expired (t.expire now).1, (t.expire now).2)

/-- Answers one call after the other. -/
def performAll (t : Outstanding α) (calls : List (Call α)) : List (Reply α) × Outstanding α :=
  calls.foldl (fun x call => (x.1 ++ [(x.2.perform call).1], (x.2.perform call).2)) ([], t)

theorem performAll_append (t : Outstanding α) (calls : List (Call α)) (call : Call α) :
    t.performAll (calls ++ [call]) = ((t.performAll calls).1 ++ [((t.performAll calls).2.perform call).1],
      ((t.performAll calls).2.perform call).2) := by
  simp only [performAll, List.foldl_append, List.foldl_cons, List.foldl_nil]

theorem length_performAll (t : Outstanding α) (calls : List (Call α)) :
    (t.performAll calls).1.length = calls.length := by
  induction calls using List.reverseRecOn with
  | nil => rfl
  | append_singleton calls call ih => simp [performAll_append, ih]

/-! ### Deadlines -/

/-- The deadline of a request after a call, by that before it. -/
def Call.deadline (timeout : Duration) (id : TransactionId) (due : Option Instant) : Call α → Option Instant
  | .track tracked now => if id = tracked then some (now.plus timeout) else due
  | .remove removed => if id = removed then none else due
  | .expire now => due.filter fun d => !d.isBy now
  | .park _ _ | .take => due

/-- The deadline of a request that is outstanding after some calls: the time of its last tracking and the timeout. -/
def due? (timeout : Duration) (id : TransactionId) (calls : List (Call α)) : Option Instant :=
  calls.foldl (fun due call => call.deadline timeout id due) none

theorem due?_append (timeout : Duration) (id : TransactionId) (calls : List (Call α)) (call : Call α) :
    due? timeout id (calls ++ [call]) = call.deadline timeout id (due? timeout id calls) := by
  rw [due?, List.foldl_append]
  rfl

/-- The requests of a list, each with its deadline. -/
def deadlines (t : Outstanding α) : List (TransactionId × Instant) := t.entries.map fun e => (e.id, e.deadline)

theorem deadlines_remove (t : Outstanding α) (id : TransactionId) :
    (t.remove id).deadlines = t.deadlines.filter fun x => x.1 ≠ id := by
  simp only [deadlines, remove, List.filter_map]
  rfl

theorem deadlines_track (t : Outstanding α) (id : TransactionId) (now : Instant) :
    (t.track id now).deadlines = (t.deadlines.filter fun x => x.1 ≠ id) ++ [(id, now.plus t.timeout)] := by
  rw [← deadlines_remove]
  simp [deadlines, track]

theorem deadlines_park? (h : t.park? id a = some t') : t'.deadlines = t.deadlines ∧ t'.timeout = t.timeout := by
  unfold park? at h
  split at h
  · cases h
    refine ⟨?_, rfl⟩
    simp only [deadlines, List.map_map]
    refine List.map_congr_left fun e _ => ?_
    rw [Function.comp_apply]
    split <;> rfl
  · cases h

theorem deadlines_takeParked (t : Outstanding α) : t.takeParked.2.deadlines = t.deadlines := by
  simp only [deadlines, takeParked, List.map_map]
  rfl

theorem deadlines_expire (t : Outstanding α) (now : Instant) :
    (t.expire now).2.deadlines = t.deadlines.filter fun x => !x.2.isBy now := by
  simp only [deadlines, expire, List.filter_map]
  rfl

theorem contains_iff : t.contains id = true ↔ ∃ d, (id, d) ∈ t.deadlines := by
  simp [contains, deadlines]

/-- The list is as the calls have left it, with an entry for each request that is outstanding after them. -/
structure Follows (timeout : Duration) (calls : List (Call α)) (t : Outstanding α) : Prop where
  timeout_eq : t.timeout = timeout
  distinct : (t.deadlines.map Prod.fst).Nodup
  due : ∀ id d, (id, d) ∈ t.deadlines ↔ due? timeout id calls = some d

namespace Follows
variable {timeout : Duration} {calls : List (Call α)}

theorem due_of_mem (h : Follows timeout calls t) {e : Tracked α} (he : e ∈ t.entries) :
    due? timeout e.id calls = some e.deadline := (h.due e.id e.deadline).mp (List.mem_map_of_mem he)

theorem contains_eq (h : Follows timeout calls t) (id : TransactionId) :
    t.contains id = (due? timeout id calls).isSome := by
  rw [Bool.eq_iff_iff, contains_iff, Option.isSome_iff_exists]
  exact exists_congr (h.due id)

theorem isSome_due?_eq (h : Follows timeout calls t) (id : TransactionId) (a : α) :
    (due? timeout id calls).isSome = (t.park? id a).isSome := by rw [← h.contains_eq, t.isSome_park?]

/-- A call that changes no deadline. -/
theorem of_same (h : Follows timeout calls t) (hdeadlines : t'.deadlines = t.deadlines)
    (htimeout : t'.timeout = t.timeout) {call : Call α} (hcall : ∀ id due, call.deadline timeout id due = due) :
    Follows timeout (calls ++ [call]) t' where
  timeout_eq := htimeout.trans h.timeout_eq
  distinct := hdeadlines ▸ h.distinct
  due id d := by rw [hdeadlines, due?_append, hcall, h.due]

theorem nodup_filter (h : Follows timeout calls t) (p : TransactionId × Instant → Bool) :
    ((t.deadlines.filter p).map Prod.fst).Nodup := h.distinct.sublist (List.filter_sublist.map _)

theorem perform (h : Follows timeout calls t) (call : Call α) :
    Follows timeout (calls ++ [call]) (t.perform call).2 := by
  cases call with
  | track tracked now =>
    have hdeadlines := h.timeout_eq ▸ t.deadlines_track tracked now
    refine ⟨h.timeout_eq, ?_, fun id d => ?_⟩
    · show ((t.track tracked now).deadlines.map Prod.fst).Nodup
      rw [hdeadlines, List.map_append, List.nodup_append]
      refine ⟨h.nodup_filter _, by simp, ?_⟩
      simp
    · show (id, d) ∈ (t.track tracked now).deadlines ↔ _
      rw [hdeadlines, due?_append, Call.deadline, List.mem_append, List.mem_filter, h.due]
      by_cases hid : id = tracked
      · simp [hid, eq_comm]
      · simp [hid]
  | park id a =>
    simp only [Outstanding.perform]
    split
    · next t' hpark => exact h.of_same (deadlines_park? hpark).1 (deadlines_park? hpark).2 fun _ _ => rfl
    · exact h.of_same rfl rfl fun _ _ => rfl
  | take => exact h.of_same t.deadlines_takeParked rfl fun _ _ => rfl
  | remove removed =>
    refine ⟨h.timeout_eq, ?_, fun id d => ?_⟩
    · exact t.deadlines_remove removed ▸ h.nodup_filter _
    · show (id, d) ∈ (t.remove removed).deadlines ↔ _
      rw [t.deadlines_remove removed, due?_append, Call.deadline, List.mem_filter, h.due]
      by_cases hid : id = removed <;> simp [hid]
  | expire now =>
    refine ⟨h.timeout_eq, ?_, fun id d => ?_⟩
    · exact t.deadlines_expire now ▸ h.nodup_filter _
    · show (id, d) ∈ (t.expire now).2.deadlines ↔ _
      rw [t.deadlines_expire now, due?_append, Call.deadline, List.mem_filter, h.due, Option.filter_eq_some_iff]

end Follows

theorem follows_of_calls (timeout : Duration) (calls : List (Call α)) :
    Follows timeout calls (performAll ⟨timeout, []⟩ calls).2 := by
  induction calls using List.reverseRecOn with
  | nil => exact ⟨rfl, List.nodup_nil, fun id d => by simp [performAll, deadlines, due?]⟩
  | append_singleton calls call ih => exact performAll_append _ calls call ▸ ih.perform call

/-! ### What is parked -/

/-- The states that are parked in some entries, each with its request. -/
def parkedIn (entries : List (Tracked α)) : List (TransactionId × α) :=
  entries.filterMap fun e => e.parked.map fun a => (e.id, a)

/-- The states that are parked, each with its request. -/
def parked (t : Outstanding α) : List (TransactionId × α) := parkedIn t.entries

theorem parkedIn_append (entries entries' : List (Tracked α)) :
    parkedIn (entries ++ entries') = parkedIn entries ++ parkedIn entries' := List.filterMap_append

theorem parkedIn_filter (entries : List (Tracked α)) {p : Tracked α → Bool} {q : TransactionId → Bool}
    (h : ∀ e ∈ entries, p e = q e.id) : parkedIn (entries.filter p) = (parkedIn entries).filter fun x => q x.1 := by
  rw [parkedIn, parkedIn, List.filterMap_filter, List.filter_filterMap]
  refine List.filterMap_congr fun e he => ?_
  rw [h e he]
  cases e.parked <;> cases hq : q e.id <;> simp [Option.filter, hq]

theorem parked_remove (t : Outstanding α) (id : TransactionId) :
    (t.remove id).parked = t.parked.filter fun x => x.1 ≠ id :=
  parkedIn_filter (q := fun other => other ≠ id) t.entries fun _ _ => rfl

theorem parked_track (t : Outstanding α) (id : TransactionId) (now : Instant) :
    (t.track id now).parked = t.parked.filter fun x => x.1 ≠ id := by
  rw [← parked_remove]
  exact (parkedIn_append _ _).trans (List.append_nil _)

theorem parked_takeParked (t : Outstanding α) : t.takeParked.2.parked = [] := by
  simp [parked, parkedIn, takeParked]

theorem takeParked_perm (t : Outstanding α) : t.takeParked.1.Perm t.parked := List.mergeSort_perm _ _

theorem mem_parked {x : TransactionId × α} : x ∈ t.parked ↔ ∃ y ∈ t.entries, y.parked = some x.2 ∧ y.id = x.1 := by
  simp only [parked, parkedIn, List.mem_filterMap]
  refine exists_congr fun y => and_congr_right fun _ => ?_
  cases y.parked <;> simp [Prod.ext_iff, and_comm]

theorem mem_takeParked (t : Outstanding α) {x : TransactionId × α} :
    x ∈ t.takeParked.1 ↔ ∃ y ∈ t.entries, y.parked = some x.2 ∧ y.id = x.1 := t.takeParked_perm.mem_iff.trans mem_parked

/-- Nothing is taken up twice. -/
theorem nodup_takeParked (t : Outstanding α) (h : (t.entries.map Tracked.id).Nodup) :
    (t.takeParked.1.map Prod.fst).Nodup := by
  have hsub (entries : List (Tracked α)) : ((parkedIn entries).map Prod.fst).Sublist (entries.map Tracked.id) := by
    induction entries with
    | nil => exact .slnil
    | cons e rest ih =>
      rw [parkedIn, List.filterMap_cons]
      cases e.parked with
      | none => exact ih.cons _
      | some a => exact ih.cons_cons _
  exact (t.takeParked_perm.map Prod.fst).nodup_iff.mpr (h.sublist (hsub t.entries))

theorem pairwise_takeParked (t : Outstanding α) (h : (t.entries.map Tracked.id).Nodup) :
    t.takeParked.1.Pairwise fun x y => x.1.number < y.1.number := by
  have hsorted : t.takeParked.1.Pairwise fun x y => decide (x.1.number ≤ y.1.number) = true :=
    List.pairwise_mergeSort (fun x y z hxy hyz => by simp only [decide_eq_true_eq] at *; omega)
      (fun x y => by simp only [Bool.or_eq_true, decide_eq_true_eq]; omega) _
  have hdistinct := List.pairwise_map.mp (t.nodup_takeParked h)
  exact hsorted.imp₂ (fun x y hle hne => Nat.lt_of_le_of_ne (of_decide_eq_true hle) fun heq =>
    hne (congrArg TransactionId.mk heq)) hdistinct

/-- A state that is parked takes the place of what was parked of its request. -/
theorem parked_park? (hdistinct : (t.deadlines.map Prod.fst).Nodup) (h : t.park? id a = some t') :
    t'.parked.Perm ((t.parked.filter fun x => x.1 ≠ id) ++ [(id, a)]) := by
  unfold park? at h
  split at h
  · next hcontains =>
    cases h
    obtain ⟨d, hd⟩ := contains_iff.mp hcontains
    obtain ⟨e, he, heq⟩ := List.mem_map.mp hd
    obtain ⟨rfl, -⟩ := Prod.mk.inj heq
    obtain ⟨before, after, hentries⟩ := List.append_of_mem he
    -- No other entry is of this request.
    have hothers : ∀ x ∈ before ++ after, x.id ≠ e.id := by
      simp only [deadlines, List.map_map, hentries] at hdistinct
      have hmiddle := (List.perm_middle.map _).nodup_iff.mp hdistinct
      intro x hx heq
      exact (List.nodup_cons.mp hmiddle).1 (List.mem_map.mpr ⟨x, hx, heq⟩)
    have hleft : t.entries.filter (fun x => x.id ≠ e.id) = before ++ after := by
      rw [hentries, List.filter_append, List.filter_cons_of_neg (by simp), ← List.filter_append, List.filter_eq_self]
      exact fun x hx => by simpa using hothers x hx
    have hmapped {entries : List (Tracked α)} (hsub : entries ⊆ before ++ after) :
        (entries.map fun x => if x.id = e.id then { x with parked := some a } else x) = entries :=
      (List.map_congr_left fun x hx => if_neg (hothers x (hsub hx))).trans (List.map_id entries)
    have hfilter : (t.parked.filter fun x => x.1 ≠ e.id) = parkedIn before ++ parkedIn after := by
      rw [← parked_remove, ← parkedIn_append, ← hleft]
      rfl
    show (parkedIn (t.entries.map _)).Perm _
    rw [hfilter, hentries, List.map_append, List.map_cons, hmapped (List.subset_append_left _ _),
      hmapped (List.subset_append_right _ _), if_pos rfl, parkedIn_append]
    exact List.perm_middle.trans (List.perm_append_singleton _ _).symm
  · cases h

namespace Follows
variable {timeout : Duration} {calls : List (Call α)}

theorem exists_due_of_mem_parked (h : Follows timeout calls t) {x : TransactionId × α} (hx : x ∈ t.parked) :
    ∃ d, due? timeout x.1 calls = some d := by
  obtain ⟨e, he, hparked⟩ := List.mem_filterMap.mp hx
  obtain ⟨a, -, rfl⟩ := Option.map_eq_some_iff.mp hparked
  exact ⟨_, h.due_of_mem he⟩

theorem nodup_entries (h : Follows timeout calls t) : (t.entries.map Tracked.id).Nodup := by
  have hdistinct := h.distinct
  rwa [deadlines, List.map_map] at hdistinct

theorem parked_expire (h : Follows timeout calls t) (now : Instant) : (t.expire now).2.parked =
    t.parked.filter fun x => !(due? timeout x.1 calls).any (·.isBy now) := by
  refine parkedIn_filter (q := fun id => !(due? timeout id calls).any (·.isBy now)) t.entries fun e he => ?_
  simp [h.due_of_mem he]

theorem handed_expire (h : Follows timeout calls t) (now : Instant) :
    ((t.expire now).1.filterMap fun x => x.2.map fun a => (x.1, a)) =
      t.parked.filter fun x => (due? timeout x.1 calls).any (·.isBy now) := by
  rw [expire, List.filterMap_map]
  refine parkedIn_filter (q := fun id => (due? timeout id calls).any (·.isBy now)) t.entries fun e he => ?_
  simp [h.due_of_mem he]

theorem nodup_expire (h : Follows timeout calls t) (now : Instant) : ((t.expire now).1.map Prod.fst).Nodup := by
  rw [expire, List.map_map]
  exact h.nodup_entries.sublist (List.filter_sublist.map _)

theorem exists_mem_expire_iff (h : Follows timeout calls t) :
    (∃ state, (id, state) ∈ (t.expire now).1) ↔ ∃ d, due? timeout id calls = some d ∧ d.isBy now = true := by
  simp only [← h.due]
  simp [expire, deadlines, and_right_comm]

/-- A request that expires comes with what is parked of it. -/
theorem eq_some_iff_of_mem_expire (h : Follows timeout calls t) {state : Option α}
    (hstate : (id, state) ∈ (t.expire now).1) (a : α) : state = some a ↔ (id, a) ∈ t.parked := by
  obtain ⟨e, he, heq⟩ := List.mem_map.mp hstate
  obtain ⟨rfl, rfl⟩ := Prod.mk.inj heq
  rw [mem_parked]
  constructor
  · exact fun ha => ⟨e, (List.mem_filter.mp he).1, ha, rfl⟩
  · rintro ⟨y, hy, ha, hid⟩
    rwa [List.inj_on_of_nodup_map h.nodup_entries hy (List.mem_filter.mp he).1 hid] at ha

theorem contains_expire_iff (h : Follows timeout calls t) :
    (t.expire now).2.contains id = true ↔ ∃ d, due? timeout id calls = some d ∧ d.isBy now = false := by
  simp only [contains_iff, deadlines_expire, List.mem_filter, h.due, Bool.not_eq_true']

end Follows

end Responder.Outstanding
