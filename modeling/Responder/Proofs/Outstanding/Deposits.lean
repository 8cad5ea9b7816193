import Responder.Proofs.Outstanding

/-! What becomes of the states that are parked. Each stays until the first call that ends its stay, which gives it
    back or lets it go (`Call.ends`); a state that is parked of no outstanding request is given back at once. So from
    the calls alone each state has its fate (`deposits`). A call gives back, and leaves parked, just what it should by
    these fates (`Follows.settles`), and so do all calls together (`accounts_of_calls`). -/

namespace Responder.Outstanding

variable {α : Type} {t : Outstanding α} {timeout : Duration} {calls : List (Call α)}

/-! ### Fates -/

/-- How the stay of a state ends. -/
inductive Ending where
  | returned
  | lost
deriving DecidableEq

/-- How a call ends the stay of a state that is parked of a request, by the request's deadline. What is taken, or is
due when requests expire, is given back. What is removed, or makes room for another state or another tracking of its
request, is lost. -/
def Call.ends (id : TransactionId) (due : Option Instant) : Call α → Option Ending
  | .track other _ | .park other _ | .remove other => if id = other then some .lost else none
  | .take => some .returned
  | .expire now => if due.any (·.isBy now) then some .returned else none

/-- By which of the later calls the stay of a parked state ends, and how; nothing if it goes on. Calls are counted from
the first one of all. -/
def fate (timeout : Duration) (id : TransactionId) : List (Call α) → List (Call α) → Option (Nat × Ending)
  | _, [] => none
  | before, call :: later =>
    match call.ends id (due? timeout id before) with
    | some ending => some (before.length, ending)
    | none => fate timeout id (before ++ [call]) later

/-- A state that was to be parked, and what became of it. -/
structure Deposit (α : Type) where
  id : TransactionId
  state : α
  fate : Option (Nat × Ending)

/-- What a call is to park. It is given back at once if the request is not outstanding. -/
def Call.deposit? (timeout : Duration) (before later : List (Call α)) : Call α → Option (Deposit α)
  | .park id a =>
    let stay := Outstanding.fate timeout id (before ++ [.park id a]) later
    some ⟨id, a, if (due? timeout id before).isSome then stay else some (before.length, .returned)⟩
  | _ => none

/-- All that was to be parked, in the order of the calls. -/
def deposits (timeout : Duration) : List (Call α) → List (Call α) → List (Deposit α)
  | _, [] => []
  | before, call :: later => (call.deposit? timeout before later).toList ++ deposits timeout (before ++ [call]) later

/-- The request and the state of a deposit. -/
def Deposit.item (d : Deposit α) : TransactionId × α := (d.id, d.state)

/-- What a call is to park, with its request. -/
def Call.parks? : Call α → Option (TransactionId × α)
  | .park id a => some (id, a)
  | _ => none

/-- The states of one fate, each with its request. -/
def withFate (ds : List (Deposit α)) (f : Option (Nat × Ending)) : List (TransactionId × α) :=
  (ds.filter fun d => d.fate = f).map Deposit.item

/-- What a reply gives back, each with its request. -/
def Reply.handed : Reply α → List (TransactionId × α)
  | .refused id a => [(id, a)]
  | .taken parked => parked
  | .expired gone => gone.filterMap fun x => x.2.map fun a => (x.1, a)
  | .done | .removed _ => []

theorem map_item_deposits (timeout : Duration) (before calls : List (Call α)) :
    (deposits timeout before calls).map Deposit.item = calls.filterMap Call.parks? := by
  induction calls generalizing before with
  | nil => rfl
  | cons call later ih =>
    cases call <;> simp [deposits, Call.deposit?, Call.parks?, Deposit.item, List.filterMap_cons, ih]

/-! ### One more call -/

theorem fate_append (timeout : Duration) (id : TransactionId) (before later : List (Call α)) (call : Call α) :
    fate timeout id before (later ++ [call]) = (fate timeout id before later).or
      ((call.ends id (due? timeout id (before ++ later))).map fun ending => ((before ++ later).length, ending)) := by
  induction later generalizing before with
  | nil =>
    simp only [List.nil_append, List.append_nil, fate, Option.none_or]
    cases call.ends id (due? timeout id before) <;> rfl
  | cons first later ih =>
    simp only [List.cons_append, fate]
    cases first.ends id (due? timeout id before) with
    | some ending => rfl
    | none => simpa using ih (before ++ [first])

/-- A deposit after one more call. -/
def Deposit.after (timeout : Duration) (calls : List (Call α)) (call : Call α) (d : Deposit α) : Deposit α :=
  { d with fate := d.fate.or ((call.ends d.id (due? timeout d.id calls)).map fun ending => (calls.length, ending)) }

theorem deposits_append (timeout : Duration) (before later : List (Call α)) (call : Call α) :
    deposits timeout before (later ++ [call]) =
      (deposits timeout before later).map (.after timeout (before ++ later) call) ++
        (call.deposit? timeout (before ++ later) []).toList := by
  induction later generalizing before with
  | nil => simp [deposits]
  | cons first later ih =>
    have hfirst : (first.deposit? timeout before (later ++ [call])).toList =
        (first.deposit? timeout before later).toList.map (.after timeout (before ++ first :: later) call) := by
      cases first with
      | park id a =>
        simp only [Call.deposit?, fate_append, Option.toList_some, List.map_cons, List.map_nil, Deposit.after]
        cases (due? timeout id before).isSome <;> simp
      | _ => rfl
    rw [List.cons_append, deposits, deposits, hfirst, ih, List.map_append, List.append_assoc]
    simp

/-- A fate names a call that was made. -/
theorem lt_of_fate (timeout : Duration) (calls : List (Call α)) :
    ∀ d ∈ deposits timeout [] calls, ∀ n ending, d.fate = some (n, ending) → n < calls.length := by
  induction calls using List.reverseRecOn with
  | nil => exact fun _ hd => nomatch hd
  | append_singleton calls call ih =>
    intro d hd n ending hfate
    rw [List.length_append, List.length_singleton]
    rw [deposits_append, List.nil_append, List.mem_append, List.mem_map] at hd
    rcases hd with ⟨d, hd, rfl⟩ | hd
    · rw [Deposit.after, Option.or_eq_some_iff] at hfate
      rcases hfate with hearlier | ⟨-, hnow⟩
      · exact Nat.lt_succ_of_lt (ih d hd n ending hearlier)
      · obtain ⟨_, -, heq⟩ := Option.map_eq_some_iff.mp hnow
        obtain ⟨rfl, -⟩ := Prod.mk.inj heq
        exact Nat.lt_succ_self _
    · cases call with
      | park id a =>
        obtain rfl := Option.some.inj (Option.mem_toList.mp hd)
        simp only [fate] at hfate
        split at hfate
        · cases hfate
        · obtain ⟨rfl, -⟩ := Prod.mk.inj (Option.some.inj hfate)
          exact Nat.lt_succ_self _
      | _ => cases hd

theorem withFate_append (ds ds' : List (Deposit α)) (f : Option (Nat × Ending)) :
    withFate (ds ++ ds') f = withFate ds f ++ withFate ds' f := by
  rw [withFate, List.filter_append, List.map_append]
  rfl

/-- What was settled before stays as it was settled. -/
theorem withFate_map_after_of_ne (ds : List (Deposit α)) (call : Call α) {n : Nat} {ending : Ending}
    (hn : n ≠ calls.length) :
    withFate (ds.map (.after timeout calls call)) (some (n, ending)) = withFate ds (some (n, ending)) := by
  have hsame (d : Deposit α) : (d.after timeout calls call).fate = some (n, ending) ↔ d.fate = some (n, ending) := by
    cases hfate : d.fate with
    | some f => simp [Deposit.after, hfate]
    | none => simp [Deposit.after, hfate, hn.symm]
  simp only [withFate, List.filter_map, List.map_map, Function.comp_def, hsame]
  rfl

/-- What was not settled is settled as the call ends it. -/
theorem withFate_map_after (timeout : Duration) {ds : List (Deposit α)}
    (hds : ∀ d ∈ ds, ∀ n ending, d.fate = some (n, ending) → n < calls.length) (call : Call α) (e : Option Ending) :
    withFate (ds.map (.after timeout calls call)) (e.map fun ending => (calls.length, ending)) =
      (withFate ds none).filter fun x => call.ends x.1 (due? timeout x.1 calls) = e := by
  have hsettled {d : Deposit α} (hd : d ∈ ds) :
      (d.after timeout calls call).fate = e.map (fun ending => (calls.length, ending)) ↔
        d.fate = none ∧ call.ends d.id (due? timeout d.id calls) = e := by
    cases hfate : d.fate with
    | some f =>
      have hne : f.1 ≠ calls.length := Nat.ne_of_lt (hds d hd f.1 f.2 hfate)
      cases e <;> simp [Deposit.after, hfate, Prod.ext_iff, hne]
    | none =>
      have hinjective : Function.Injective fun ending : Ending => (calls.length, ending) :=
        fun _ _ h => (Prod.mk.inj h).2
      simp only [Deposit.after, hfate, Option.none_or, true_and]
      exact (Option.map_injective hinjective).eq_iff
  simp only [withFate, List.filter_map, List.filter_filter, List.map_map]
  refine congrArg (List.map _) (List.filter_congr fun d hd => ?_)
  rw [Function.comp_apply, Function.comp_apply, ← Bool.decide_and, decide_eq_decide, hsettled hd, and_comm]
  rfl

theorem withFate_deposit?_of_ne (call : Call α) {n : Nat} {ending : Ending} (hn : n ≠ calls.length) :
    withFate (call.deposit? timeout calls []).toList (some (n, ending)) = [] := by
  cases call with
  | park id a => cases hdue : (due? timeout id calls).isSome <;> simp [Call.deposit?, withFate, hdue, fate, hn.symm]
  | _ => rfl

/-! ### What a call settles -/

theorem Follows.settles (h : Follows timeout calls t) (call : Call α) :
    (t.perform call).2.parked.Perm
      ((t.parked.filter fun x => call.ends x.1 (due? timeout x.1 calls) = none) ++
        withFate (call.deposit? timeout calls []).toList none) ∧
    (t.perform call).1.handed.Perm
      ((t.parked.filter fun x => call.ends x.1 (due? timeout x.1 calls) = some .returned) ++
        withFate (call.deposit? timeout calls []).toList (some (calls.length, .returned))) := by
  cases call with
  | track id now =>
    simp [Outstanding.perform, Reply.handed, Call.ends, Call.deposit?, withFate, parked_track]
  | park id a =>
    have hdue := h.isSome_due?_eq id a
    cases hpark : t.park? id a with
    | some t' =>
      rw [hpark, Option.isSome_some] at hdue
      have hperm := parked_park? h.distinct hpark
      simpa [Outstanding.perform, hpark, Reply.handed, Call.ends, Call.deposit?, withFate, hdue, fate, Deposit.item]
        using hperm
    | none =>
      rw [hpark, Option.isSome_none] at hdue
      -- Nothing is parked of a request that is not outstanding, so nothing makes room.
      have hothers : t.parked.filter (fun x => !decide (x.1 = id)) = t.parked := by
        rw [List.filter_eq_self]
        intro x hx
        obtain ⟨d, hd⟩ := h.exists_due_of_mem_parked hx
        have hne : x.1 ≠ id := fun heq => by simp [← heq, hd] at hdue
        simpa using hne
      simp [Outstanding.perform, hpark, Reply.handed, Call.ends, Call.deposit?, withFate, hdue, Deposit.item, hothers]
  | take =>
    simp [Outstanding.perform, Reply.handed, Call.ends, Call.deposit?, withFate, parked_takeParked, takeParked_perm]
  | remove id =>
    simp [Outstanding.perform, Reply.handed, Call.ends, Call.deposit?, withFate, parked_remove]
  | expire now =>
    simp [Outstanding.perform, Reply.handed, Call.ends, Call.deposit?, withFate, h.parked_expire, h.handed_expire]

/-! ### The account -/

/-- What the calls on an empty list have given back, and what is parked after them. -/
structure Accounts (timeout : Duration) (calls : List (Call α)) (replies : List (Reply α)) (t : Outstanding α) :
    Prop where
  kept : t.parked.Perm (withFate (deposits timeout [] calls) none)
  handed : ∀ n (reply : Reply α), replies[n]? = some reply →
    reply.handed.Perm (withFate (deposits timeout [] calls) (some (n, .returned)))

theorem Accounts.perform {replies : List (Reply α)} (h : Accounts timeout calls replies t)
    (hfollows : Follows timeout calls t) (hlength : replies.length = calls.length) (call : Call α) :
    Accounts timeout (calls ++ [call]) (replies ++ [(t.perform call).1]) (t.perform call).2 := by
  obtain ⟨hkept, hhanded⟩ := hfollows.settles call
  have hsettled := withFate_map_after timeout (lt_of_fate timeout calls) call
  refine ⟨?_, fun n reply hreply => ?_⟩
  · rw [deposits_append, withFate_append]
    refine hkept.trans (List.Perm.append_right _ ?_)
    exact (h.kept.filter _).trans (.of_eq (hsettled none).symm)
  · rw [deposits_append, withFate_append, List.nil_append]
    rw [List.getElem?_append] at hreply
    split at hreply
    · next hlt =>
      have hne : n ≠ calls.length := Nat.ne_of_lt (hlength ▸ hlt)
      rw [withFate_map_after_of_ne _ _ hne, withFate_deposit?_of_ne _ hne, List.append_nil]
      exact h.handed n reply hreply
    · next hge =>
      rw [List.getElem?_singleton] at hreply
      obtain ⟨hzero, heq⟩ := Option.ite_none_right_eq_some.mp hreply
      obtain rfl := Option.some.inj heq
      obtain rfl : n = calls.length := by omega
      refine hhanded.trans (List.Perm.append_right _ ?_)
      exact (h.kept.filter _).trans (.of_eq (hsettled (some .returned)).symm)

theorem accounts_of_calls (timeout : Duration) (calls : List (Call α)) :
    Accounts timeout calls (performAll ⟨timeout, []⟩ calls).1 (performAll ⟨timeout, []⟩ calls).2 := by
  induction calls using List.reverseRecOn with
  | nil => exact ⟨.nil, fun n reply hreply => by simp [performAll] at hreply⟩
  | append_singleton calls call ih =>
    rw [performAll_append]
    exact ih.perform (follows_of_calls timeout calls) (length_performAll _ calls) call

/-- After any calls on an empty list, each state that was to be parked has one fate, and a reply gives back just those
states, each of them once, whose fate names its call: the call that was to park it, if the request was not
outstanding, or else the first later call that takes or expires it, unless an earlier one removes its request, tracks
it anew or parks another state of it. What has met no such call is parked. To take then gives all that is parked, by
ascending request, and leaves the same requests outstanding. To expire at some time gives each request whose deadline,
the time of its last tracking and the timeout, is not after that time, once and with what is parked of it, and leaves
the others outstanding. -/
theorem states_are_accounted_for (timeout : Duration) (calls : List (Call α)) :
    let replies := (performAll ⟨timeout, []⟩ calls).1
    let t := (performAll ⟨timeout, []⟩ calls).2
    let ds := deposits timeout [] calls
    ds.map Deposit.item = calls.filterMap Call.parks? ∧
    replies.length = calls.length ∧
    (∀ n (reply : Reply α), replies[n]? = some reply → reply.handed.Perm (withFate ds (some (n, .returned)))) ∧
    t.parked.Perm (withFate ds none) ∧
    (∀ id, t.contains id = (due? timeout id calls).isSome) ∧
    (t.takeParked.1.Perm t.parked ∧ (t.takeParked.1.Pairwise fun x y => x.1.number < y.1.number) ∧
      t.takeParked.2.entries.map Tracked.id = t.entries.map Tracked.id) ∧
    ∀ now, ((t.expire now).1.map Prod.fst).Nodup ∧
      (∀ id, (∃ state, (id, state) ∈ (t.expire now).1) ↔ ∃ d, due? timeout id calls = some d ∧ d.isBy now = true) ∧
      (∀ id state, (id, state) ∈ (t.expire now).1 → ∀ a, state = some a ↔ (id, a) ∈ t.parked) ∧
      ∀ id, (t.expire now).2.contains id = true ↔ ∃ d, due? timeout id calls = some d ∧ d.isBy now = false := by
  intro replies t ds
  have haccounts : Accounts timeout calls replies t := accounts_of_calls timeout calls
  have hfollows : Follows timeout calls t := follows_of_calls timeout calls
  exact ⟨map_item_deposits timeout [] calls, length_performAll _ calls, haccounts.handed, haccounts.kept,
    hfollows.contains_eq, ⟨t.takeParked_perm, t.pairwise_takeParked hfollows.nodup_entries, List.map_map⟩, fun now =>
    ⟨hfollows.nodup_expire now, fun id => hfollows.exists_mem_expire_iff,
      fun id state hstate => hfollows.eq_some_iff_of_mem_expire hstate, fun id => hfollows.contains_expire_iff⟩⟩

/-- A state that makes room for another one, which is taken, and a state of a request that has expired. -/
example : (deposits ⟨5⟩ [] [.track ⟨1⟩ ⟨0⟩, .park ⟨1⟩ 'a', .park ⟨1⟩ 'b', .take, .expire ⟨5⟩, .park ⟨1⟩ 'c']).map
    Deposit.fate = [some (2, .lost), some (3, .returned), some (5, .returned)] := by decide

end Responder.Outstanding
