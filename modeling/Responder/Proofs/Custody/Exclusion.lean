import Responder.Proofs.Custody.Release
import Responder.Proofs.Custody.Writing
import Responder.Proofs.Isolation.Run

/-! Writers exclude each other. From the time that a transaction prepares an object until it has cleaned up all that it
    prepared there, or is dropped, no other transaction prepares, commits or undoes anything on that object
    (`Exclusive`), however the passes over requests alternate: whoever is engaged with an object holds its lock, and
    whoever calls it has taken it (`exclusive_of_deeds`). -/

namespace Responder

variable {Obj : Type}

def Happening.step? : Happening → Option Step
  | step st => some st
  | dropped _ => none

def stepsOf (hs : List Happening) : List Step := hs.filterMap Happening.step?

/-- While a transaction is engaged with an object and not dropped, nobody else prepares, commits or undoes anything on
the object. -/
def Exclusive (object : ObjectId) (hs : List Happening) : Prop :=
  ∀ before st after, hs = before ++ .step st :: after → st.object = some object →
    st.callback ∈ [.prepare, .commit, .undo] → ∀ id, Engaged (stepsOf before) id object →
      Happening.dropped id ∉ before → st.who.transaction = id

theorem stepsOf_append (hs hs' : List Happening) : stepsOf (hs ++ hs') = stepsOf hs ++ stepsOf hs' :=
  List.filterMap_append

theorem stepsOf_map_step (steps : List Step) : stepsOf (steps.map .step) = steps := by
  rw [stepsOf, List.filterMap_map]
  exact List.filterMap_some

theorem stepsOf_eq_nil {hs : List Happening} (h : ∀ st, Happening.step st ∉ hs) : stepsOf hs = [] := by
  rw [stepsOf, List.filterMap_eq_nil_iff]
  rintro (st | id) hx
  · exact absurd hx (h st)
  · rfl

/-- What happens after the rest, too, has to come from those who are engaged. -/
theorem Exclusive.append {object : ObjectId} {hs hs' : List Happening} (h : Exclusive object hs)
    (h' : ∀ before st after, hs' = before ++ .step st :: after → st.object = some object →
      st.callback ∈ [.prepare, .commit, .undo] → ∀ id, Engaged (stepsOf (hs ++ before)) id object →
        Happening.dropped id ∉ hs ++ before → st.who.transaction = id) : Exclusive object (hs ++ hs') := by
  intro before st after heq hobject hcallback id hengaged hdropped
  rcases List.append_eq_append_iff.mp heq with ⟨middle, rfl, hrest⟩ | ⟨middle, rfl, hrest⟩
  · exact h' middle st after hrest hobject hcallback id hengaged hdropped
  · cases middle with
    | nil => exact h' [] st after hrest.symm hobject hcallback id (by simpa using hengaged) (by simpa using hdropped)
    | cons x middle =>
      obtain ⟨rfl, -⟩ := List.cons.inj hrest
      exact h before st middle rfl hobject hcallback id hengaged hdropped

/-- What comes before a step is made of steps, if nothing but steps comes before the rest. -/
theorem eq_map_of_step {steps : List Step} {drops before after : List Happening} {st : Step}
    (hdrops : ∀ st, Happening.step st ∉ drops) (heq : steps.map .step ++ drops = before ++ .step st :: after) :
    ∃ sooner later, steps = sooner ++ st :: later ∧ before = sooner.map .step := by
  induction steps generalizing before with
  | nil =>
    refine absurd ?_ (hdrops st)
    rw [← List.nil_append drops, ← List.map_nil, heq]
    simp
  | cons x steps ih =>
    cases before with
    | nil =>
      obtain ⟨hx, -⟩ := List.cons.inj heq
      exact ⟨[], steps, congrArg (· :: steps) (Happening.step.inj hx), rfl⟩
    | cons y before =>
      obtain ⟨rfl, hrest⟩ := List.cons.inj heq
      obtain ⟨sooner, later, rfl, rfl⟩ := ih hrest
      exact ⟨x :: sooner, later, rfl, rfl⟩

/-! ### Requests that write -/

/-- The request is to write, and the registry serves it. -/
def Pending.Writing (number : Nat) (p : Pending) : Prop := p.registry = number ∧ p.request.requester.kind = .set

/-- Where a request that writes does so. -/
def Agent.scene (a : Agent Obj) (p : Pending) : Set.Scene Obj :=
  ⟨a.policy, p.registry, p.request.requester, fun _ _ => True⟩

variable {a : Agent Obj} {entries : Nat → List Entry} {number : Nat} {object : ObjectId}
  {hs drops : List Happening} {s₀ s t u : State Obj} {hands left : List Pending} {p q : Pending}

/-- One pass over a request that writes calls nothing but under locks, and keeps hold of what is prepared. -/
theorem Agent.pass_watch [ManagedObject Obj] (hservices : a.services = Agent.standardServices)
    (hset : p.request.requester.kind = .set) (htidy : s.Tidy entries)
    (hordered : Registry.Ordered (entries p.registry)) (hlocking : (s.registry p.registry).locking.GuardsWrites)
    (h : Set.Secured (a.scene p) entries s s p.request) :
    (a.pass p).Alone (fun _ => True) s fun out t => Watch entries p.registry p.request.requester s t ∧
      ∀ r, out = some r → Set.Secured (a.scene p) entries s t r.1 := by
  have hservice : a.serviceFor? p.request.pdu.kind = some Set.service := by
    rw [Agent.serviceFor?, hservices, h.writes.kind]
    rfl
  have hrun := (Set.run_alone htidy hset hordered hlocking h).before
    (fun t u ht hu => ht.quiet (.of_later ht.mine.sound hu) hu.journal) (a.expiry p.request)
  rw [Agent.pass, hservice]
  refine hrun.mono (fun _ _ => trivial) fun out t hout => ?_
  cases out with
  | none => exact ⟨hout, fun r hr => by cases hr⟩
  | some out => exact ⟨hout.grip.watch, fun r hr => Option.some.inj hr ▸ hout⟩

/-- In one pass the request touches its own only, and if it writes, calls nothing but under locks. -/
structure Pending.Passes (entries : Nat → List Entry) (number : Nat) (s t : State Obj) (p : Pending) : Prop where
  touches : Touches p.registry p.request.requester (Registers entries p.registry) s t
  watch : p.Writing number → Watch entries p.registry p.request.requester s t

namespace Set.Secured

variable {S : Set.Scene Obj} {r : Request}

theorem clears {gone : Nat → TransactionId → Prop} (h : Secured S entries s₀ s r) (hclears : s.Clears gone t)
    (hmine : ¬gone S.registry S.who.transaction) : Secured S entries t t r := by
  have hs := h.grip.watch.mine.sound
  have hsound := hclears.sound S.registry hs
  refine h.frame hsound (hclears.journal.trans (List.append_nil _).symm) (by simp) fun object => ?_
  exact hs.count_le hsound (fun x hx howner => (hclears.holds _ x).mpr ⟨hx, howner ▸ hmine⟩) object

theorem of_same (h : Secured S entries s₀ s r) (hregistries : t.registries = s.registries)
    (hjournal : t.journal = s.journal) : Secured S entries t t r := by
  have hregistry := State.registry_congr hregistries S.registry
  refine h.frame (hregistry ▸ h.grip.watch.mine.sound) (hjournal.trans (List.append_nil _).symm) (by simp) fun _ => ?_
  rw [hregistry]

theorem touches {who : Requester} {callable : ObjectId → Prop} (h : Secured S entries s₀ s r)
    (ht : Touches number who callable s t) (hsound : (t.registry S.registry).locks.Sound)
    (hwho : S.who.transaction ≠ who.transaction) : Secured S entries t t r := by
  obtain ⟨steps, hsteps, hall⟩ := ht.journal
  refine h.frame hsound hsteps (fun st hst => ?_) fun object => ht.count_le h.grip.watch.mine.sound hwho object
  rw [(hall st hst).1]
  exact hwho.symm

/-- The lock of an object that the request is engaged with is its own. -/
theorem held (h : Secured S entries s₀ s r) (hengaged : Engaged s.journal S.who.transaction object) :
    ∃ x ∈ (s.registry S.registry).locks.holds, x.object = object ∧ x.owner = S.who.transaction := by
  obtain ⟨index, hprepared, hcleaned⟩ := hengaged
  obtain ⟨x, hx, -, htarget⟩ := h.grip.tied.linked object index hprepared hcleaned
  refine h.grip.watch.mine.sound.count_pos_iff.mp (le_trans ?_ (h.grip.tied.backed object))
  exact List.countP_pos_iff.mpr ⟨x, hx, decide_eq_true htarget⟩

end Set.Secured

/-! ### Runs -/

/-- While requests go on: those that write have hold of what they have prepared, and whoever is engaged with an object
goes on, unless it was dropped. -/
structure Excludes (a : Agent Obj) (entries : Nat → List Entry) (number : Nat) (object : ObjectId)
    (hs : List Happening) (s : State Obj) (hands : List Pending) : Prop where
  told : stepsOf hs = s.journal
  -- A request that begins is engaged with nothing, as its transaction is new.
  known : ∀ st ∈ s.journal, st.who.transaction.number < s.transactions
  locking : (s.registry number).locking.GuardsWrites
  secured : ∀ p : Pending, p.Lives s hands → p.Writing number → Set.Secured (a.scene p) entries s s p.request
  engaged : ∀ id, Engaged s.journal id object → Happening.dropped id ∉ hs →
    ∃ p : Pending, p.Lives s hands ∧ p.Writing number ∧ p.request.transaction = id
  exclusive : Exclusive object hs

namespace Excludes

/-- Requests are dropped, and nothing else happens. -/
theorem keep (h : Excludes a entries number object hs s hands) (hdrops : ∀ st, Happening.step st ∉ drops)
    (hjournal : t.journal = s.journal) (htransactions : s.transactions ≤ t.transactions)
    (hlocking : (t.registry number).locking = (s.registry number).locking)
    (hsecured : ∀ q : Pending, q.Lives t left → q.Writing number → Set.Secured (a.scene q) entries t t q.request)
    (hgoes : ∀ p : Pending, p.Lives s hands → p.Writing number → Happening.dropped p.request.transaction ∉ drops →
      ∃ q : Pending, q.Lives t left ∧ q.Writing number ∧ q.request.transaction = p.request.transaction) :
    Excludes a entries number object (hs ++ drops) t left where
  told := by rw [stepsOf_append, stepsOf_eq_nil hdrops, List.append_nil, hjournal, h.told]
  known st hst := (h.known st (hjournal ▸ hst)).trans_le htransactions
  locking := hlocking ▸ h.locking
  secured := hsecured
  engaged id hengaged hdropped := by
    rw [List.mem_append, not_or] at hdropped
    obtain ⟨p, hp, hwriting, rfl⟩ := h.engaged id (hjournal ▸ hengaged) hdropped.1
    exact hgoes p hp hwriting hdropped.2
  exclusive := h.exclusive.append fun before st after heq => by
    refine absurd ?_ (hdrops st)
    rw [heq]
    simp

/-- Nothing happens, but requests go on in another way. -/
theorem onward (h : Excludes a entries number object hs s hands) (hregistries : t.registries = s.registries)
    (hjournal : t.journal = s.journal) (htransactions : s.transactions ≤ t.transactions)
    (hsecured : ∀ q : Pending, q.Lives t left → q.Writing number → Set.Secured (a.scene q) entries t t q.request)
    (hgoes : ∀ p : Pending, p.Lives s hands → p.Writing number →
      ∃ q : Pending, q.Lives t left ∧ q.Writing number ∧ q.request.transaction = p.request.transaction) :
    Excludes a entries number object hs t left := by
  have hlocking := congrArg Registry.locking (State.registry_congr hregistries number)
  rw [← List.append_nil hs]
  exact h.keep (by simp) hjournal htransactions hlocking hsecured fun p hp hwriting _ => hgoes p hp hwriting

theorem of_same (h : Excludes a entries number object hs s hands) (hregistries : t.registries = s.registries)
    (houtstanding : t.outstanding.entries = s.outstanding.entries) (hjournal : t.journal = s.journal)
    (htransactions : s.transactions ≤ t.transactions) : Excludes a entries number object hs t hands := by
  have hlives (q : Pending) : q.Lives t hands ↔ q.Lives s hands := Pending.lives_congr houtstanding
  refine h.onward hregistries hjournal htransactions (fun q hq hwriting => ?_) fun p hp hwriting =>
    ⟨p, (hlives p).mpr hp, hwriting, rfl⟩
  exact (h.secured q ((hlives q).mp hq) hwriting).of_same hregistries hjournal

theorem opened (h : Excludes a entries number object hs s []) (hs' : Settled entries s [])
    (hp : p.Writing number → Set.Secured (a.scene p) entries (Agent.opened s) (Agent.opened s) p.request) :
    Excludes a entries number object hs (Agent.opened s) [p] := by
  refine h.onward rfl rfl (Nat.le_succ _) (fun q hq hwriting => ?_) fun q hq hwriting =>
    ⟨q, hs'.lives_opened.mpr (Or.inr hq), hwriting, rfl⟩
  rcases hs'.lives_opened.mp hq with rfl | hq
  · exact hp hwriting
  · exact (h.secured q hq hwriting).of_same rfl rfl

theorem takeOn (h : Excludes a entries number object hs s []) (hs' : Settled entries s []) (m : Inbound)
    (mapping : Option Mapping) :
    Excludes a entries number object hs (a.takeOn m mapping s).2 (a.takeOn m mapping s).1.getRight?.toList := by
  rcases hs'.takeOn_cases (a := a) m mapping with
    ⟨_, _, heq, hregistries, houtstanding, htransactions, hjournal⟩ | ⟨registry, heq⟩
  · rw [heq]
    exact h.of_same hregistries houtstanding hjournal htransactions
  · rw [heq]
    have hsound := hs'.tidy.sound registry
    refine h.opened hs' fun hwriting => Set.secured_start hwriting.2 hsound (fun st hst heq => ?_) _ _
    have hlt := h.known st hst
    rw [heq] at hlt
    exact Nat.lt_irrefl _ hlt

theorem takeUp (h : Excludes a entries number object hs s []) :
    Excludes a entries number object hs { s with outstanding := s.outstanding.takeParked.2 }
      (s.outstanding.takeParked.1.map fun x => x.2.retry) := by
  refine h.onward rfl rfl le_rfl (fun q hq hwriting => ?_) fun p hp hwriting =>
    ⟨p.retry, Roster.lives_takeUp.mpr ⟨p, hp, rfl⟩, hwriting, rfl⟩
  obtain ⟨p, hp, rfl⟩ := Roster.lives_takeUp.mp hq
  exact (h.secured p hp hwriting).retry.of_same rfl rfl

theorem expire (h : Excludes a entries number object hs s []) (hs' : Settled entries s []) :
    Excludes a entries number object (hs ++ (s.outstanding.expire s.now).1.map fun x => .dropped x.1)
      (Agent.expire s).2 [] := by
  have hclears := hs'.clears_expire
  refine h.keep (fun st hst => ?_) hclears.journal hclears.transactions.ge (hclears.locking number)
    (fun q hq hwriting => ?_) fun p hp hwriting hdropped => ⟨p, hs'.lives_expire.mpr ⟨hp, fun hexpired => ?_⟩,
      hwriting, rfl⟩
  · obtain ⟨x, -, hx⟩ := List.mem_map.mp hst
    cases hx
  · obtain ⟨hq, hopen⟩ := hs'.lives_expire.mp hq
    refine (h.secured q hq hwriting).clears hclears ?_
    -- Who has the transaction of a request that has expired is that request.
    rintro ⟨p, hp, -⟩
    obtain ⟨x, hx, heq⟩ := List.mem_map.mp hp
    obtain ⟨hid, hparked⟩ := Prod.mk.inj heq
    have hx := (List.mem_filter.mp hx).1
    obtain rfl := hs'.unique (Or.inr ⟨x, hx, hparked⟩) hq ((hs'.own x hx p hparked).trans hid)
    exact hopen hp
  · exact hdropped (List.mem_map.mpr ⟨_, hexpired, rfl⟩)

/-! ### One pass among others -/

section Pass

variable (h : Excludes a entries number object hs s (p :: hands)) (hpass : p.Passes entries number s t)
  (hsole : ∀ other, Registers entries other object → other = number)

include hsole hpass in
/-- Only a request that writes calls the object to prepare, commit or undo. -/
theorem writing_of_step {st : Step} (hst : st ∈ t.journal.drop s.journal.length) (hobject : st.object = some object)
    (hcallback : st.callback ∈ [.prepare, .commit, .undo]) : p.Writing number := by
  obtain ⟨steps, hsteps, hall⟩ := hpass.touches.journal
  rw [hsteps, List.drop_left] at hst
  obtain ⟨hregisters, hmay⟩ := (hall st hst).2 object hobject
  refine ⟨hsole p.registry hregisters, ?_⟩
  revert hmay hcallback
  cases p.request.requester.kind <;> cases st.callback <;> simp [Pdu.Kind.callbacks]

include h hsole hpass

/-- Whoever is engaged with the object after the pass went on until then, unless he was dropped before. -/
theorem engaged_pass {id : TransactionId} (hengaged : Engaged t.journal id object)
    (hdropped : Happening.dropped id ∉ hs) :
    ∃ q : Pending, q.Lives s (p :: hands) ∧ q.Writing number ∧ q.request.transaction = id := by
  obtain ⟨steps, hsteps, hall⟩ := hpass.touches.journal
  obtain ⟨index, hprepared, hcleaned⟩ := hengaged
  rw [hsteps, called_append] at hprepared hcleaned
  rcases hprepared with hprepared | ⟨st, hst, hid, hcallback, hobject, -⟩
  · exact h.engaged id ⟨index, hprepared, fun hc => hcleaned (Or.inl hc)⟩ hdropped
  · refine ⟨p, Or.inl List.mem_cons_self, ?_, (congrArg Requester.transaction (hall st hst).1).symm.trans hid⟩
    have hmem : st ∈ t.journal.drop s.journal.length := by rwa [hsteps, List.drop_left]
    exact writing_of_step hpass hsole hmem hobject (by simp [hcallback])

/-- While somebody else is engaged with the object, the pass does not prepare, commit or undo anything there. -/
theorem exclusive_pass (hdrops : ∀ st, Happening.step st ∉ drops) : Exclusive object (hs ++ (s.since t ++ drops)) := by
  obtain ⟨steps, hsteps, hall⟩ := hpass.touches.journal
  have hsince : s.since t = steps.map .step := by rw [State.since, hsteps, List.drop_left]
  refine h.exclusive.append fun before st after heq hobject hcallback id hengaged hdropped => ?_
  obtain ⟨sooner, later, rfl, rfl⟩ := eq_map_of_step hdrops (hsince ▸ heq)
  have hwho : st.who = p.request.requester := (hall st (by simp)).1
  have hmem : st ∈ t.journal.drop s.journal.length := by simp [hsteps]
  have hwriting := writing_of_step hpass hsole hmem hobject hcallback
  by_contra hne
  -- The other one was engaged when the pass began, so the lock was his, and not there to be taken.
  have hengaged : Engaged s.journal id object := by
    rw [stepsOf_append, stepsOf_map_step, h.told] at hengaged
    refine (engaged_append_of_ne fun st' hst' heq => ?_).mp hengaged
    rw [(hall st' (by simp [hst'])).1, ← hwho] at heq
    exact hne heq
  obtain ⟨q, hq, hq', rfl⟩ := h.engaged id hengaged fun hd => hdropped (List.mem_append_left _ hd)
  obtain ⟨x, hx, hxobject, hxowner⟩ := (h.secured q hq hq').held hengaged
  have hguarded := (hpass.watch hwriting).guarded st hmem object hobject (fun hc => by simp [hc] at hcallback) x
    (hwriting.1.trans hq'.1.symm ▸ hx) hxobject
  exact hne ((congrArg Requester.transaction hwho).trans (hguarded.symm.trans hxowner))

/-- After a pass a request gives up locks of its own at most. So the others go on as before. -/
theorem after (hs' : Settled entries s (p :: hands)) (hdrops : ∀ st, Happening.step st ∉ drops)
    {gone : Nat → TransactionId → Prop} (hclears : t.Clears gone u)
    (hgone : ∀ number id, gone number id → id = p.request.transaction)
    (hlives : ∀ q : Pending, q.Lives u left → q.Lives s (p :: hands) ∧ q.request.transaction ≠ p.request.transaction ∨
      (q.Writing number → Set.Secured (a.scene q) entries u u q.request))
    (hgoes : ∀ q : Pending, q.Lives s (p :: hands) → q.request.transaction ≠ p.request.transaction → q.Lives u left)
    (hmine : p.Writing number → Engaged t.journal p.request.transaction object →
      Happening.dropped p.request.transaction ∉ drops →
        ∃ q : Pending, q.Lives u left ∧ q.Writing number ∧ q.request.transaction = p.request.transaction) :
    Excludes a entries number object (hs ++ (s.since t ++ drops)) u left := by
  obtain ⟨steps, hsteps, hall⟩ := hpass.touches.journal
  have hjournal : u.journal = s.journal ++ steps := hclears.journal.trans hsteps
  have htransactions : u.transactions = s.transactions := hclears.transactions.trans hpass.touches.transactions
  refine ⟨?told, fun st hst => ?known, ?locking, fun q hq hwriting => ?secured, fun id hengaged hdropped => ?engaged,
    h.exclusive_pass hpass hsole hdrops⟩
  case told =>
    rw [stepsOf_append, stepsOf_append, stepsOf_eq_nil hdrops, List.append_nil, State.since, stepsOf_map_step, h.told,
      hjournal, hsteps, List.drop_left]
  case known =>
    rw [htransactions]
    rcases List.mem_append.mp (hjournal ▸ hst) with hst | hst
    · exact h.known st hst
    · obtain ⟨x, hx, hid, -⟩ := hs'.listed p List.mem_cons_self
      rw [(hall st hst).1]
      exact lt_of_eq_of_lt (congrArg TransactionId.number hid).symm (hs'.fresh x hx)
  case locking =>
    rw [hclears.locking, hpass.touches.locking]
    exact h.locking
  case secured =>
    rcases hlives q hq with ⟨hq, hne⟩ | hsecured
    · have hsound := (hpass.touches.tidy hs'.tidy).sound q.registry
      exact ((h.secured q hq hwriting).touches hpass.touches hsound hne).clears hclears fun hq => hne (hgone _ _ hq)
    · exact hsecured hwriting
  case engaged =>
    rw [hclears.journal] at hengaged
    rw [List.mem_append, List.mem_append, not_or, not_or] at hdropped
    obtain ⟨q, hq, hwriting, rfl⟩ := h.engaged_pass hpass hsole hengaged hdropped.1
    by_cases heq : q.request.transaction = p.request.transaction
    · obtain rfl := hs'.unique hq (Or.inl List.mem_cons_self) heq
      exact hmine hwriting hengaged hdropped.2.2
    · exact ⟨q, hgoes q hq heq, hwriting, rfl⟩

end Pass

theorem drive [ManagedObject Obj] (hservices : a.services = Agent.standardServices)
    (hordered : Registry.Ordered (entries number)) (hsole : ∀ other, Registers entries other object → other = number)
    (h : Excludes a entries number object hs s (p :: hands)) (hs' : Settled entries s (p :: hands))
    {out : Option (Request × Option Error)} (hcomes : (a.pass p).Comes s out t) :
    Excludes a entries number object (hs ++ (s.since t ++ Agent.parting p out)) (a.conclude p out t).2 hands := by
  obtain ⟨htouches, ht, hapt, -⟩ := hs'.drive hservices hcomes
  have hwatch (hwriting : p.Writing number) : Watch entries p.registry p.request.requester s t ∧
      ∀ r, out = some r → Set.Secured (a.scene p) entries s t r.1 := by
    obtain ⟨rfl, hset⟩ := hwriting
    have hp := h.secured p (Or.inl List.mem_cons_self) ⟨rfl, hset⟩
    exact (Agent.pass_watch hservices hset hs'.tidy hordered h.locking hp).of_comes hcomes
  have hpass : p.Passes entries number s t := ⟨htouches, fun hwriting => (hwatch hwriting).1⟩
  have hlives {q : Pending} : q.Lives t (p :: hands) ↔ q.Lives s (p :: hands) :=
    Pending.lives_congr (congrArg Outstanding.entries htouches.outstanding)
  have hdrops (st : Step) : Happening.step st ∉ Agent.parting p out := by
    rcases out with _ | ⟨r, _ | error⟩ <;> simp [Agent.parting]
  have hid (r : Request × Option Error) (hr : out = some r) : r.1.transaction = p.request.transaction :=
    congrArg Requester.transaction (hapt r hr).requester
  rcases Agent.conclude_cases (a := a) (s := t) hid with ⟨r, hr, -, hparked⟩ | ⟨hquits, hend⟩
  · -- The request is parked, and keeps its locks.
    have hrequester : r.requester = p.request.requester := (hapt _ hr).requester
    have hscene : a.scene { p with request := r } = a.scene p := by rw [Agent.scene, hrequester]; rfl
    have hpark := ht.park_eq (q := { p with request := r }) (hid _ hr)
    have hgoes {q : Pending} := ht.lives_park (q := { p with request := r }) (hid _ hr) (o := q)
    rw [hparked]
    refine h.after hpass hsole hs' hdrops (State.clears_nothing (by rw [hpark]) (by rw [hpark]) (by rw [hpark]))
      (fun _ _ => False.elim) (fun q hq => ?_) (fun q hq hne => hgoes.mpr (Or.inr ⟨hlives.mpr hq, hne⟩))
      fun hwriting _ _ => ⟨_, hgoes.mpr (Or.inl rfl), ⟨hwriting.1, hrequester ▸ hwriting.2⟩, hid _ hr⟩
    rcases hgoes.mp hq with rfl | ⟨hq, hne⟩
    · refine Or.inr fun hwriting => ?_
      have hp := (hwatch ⟨hwriting.1, hrequester ▸ hwriting.2⟩).2 _ hr
      exact hscene ▸ hp.of_same (by rw [hpark]) (by rw [hpark])
    · exact Or.inl ⟨hlives.mp hq, hne⟩
  · -- The request ends. If it was not dropped, it has cleaned up all that it had prepared.
    refine h.after hpass hsole hs' hdrops hquits.clears (fun _ _ hgone => hgone.2) (fun q hq => ?_)
      (fun q hq hne => (ht.lives_quit hquits.outstanding).mpr ⟨hlives.mpr hq, hne⟩) fun hwriting hengaged hdropped => ?_
    · obtain ⟨hq, hne⟩ := (ht.lives_quit hquits.outstanding).mp hq
      exact Or.inl ⟨hlives.mp hq, hne⟩
    · rcases hend with ⟨r, hr, hcomplete⟩ | hparting
      · exact absurd hengaged (((hwatch hwriting).2 _ hr).not_engaged hcomplete)
      · exact absurd (hparting ▸ List.mem_singleton_self _) hdropped

end Excludes

section Runs
variable [ManagedObject Obj]

omit [ManagedObject Obj] in
theorem Excludes.of_vacant (hvacant : s.Vacant) (hjournal : s.journal = [])
    (hlocking : (s.registry number).locking.GuardsWrites) : Excludes a entries number object [] s [] where
  told := hjournal.symm
  known st hst := by
    rw [hjournal] at hst
    cases hst
  locking := hlocking
  secured p hp := by
    rcases hp with hp | ⟨x, hx, -⟩
    · cases hp
    · rw [hvacant.outstanding] at hx
      cases hx
  engaged id hengaged := by
    obtain ⟨index, ⟨st, hst, -⟩, -⟩ := hengaged
    rw [hjournal] at hst
    cases hst
  exclusive before st after heq := by simp at heq

/-- Whatever happens, whoever is engaged with an object excludes all others, and goes on unless he is dropped. -/
theorem Chronicle.excludes (hservices : a.services = Agent.standardServices)
    (hordered : Registry.Ordered (entries number)) (hsole : ∀ other, Registers entries other object → other = number)
    (hsettled : Settled entries s₀ []) (hexcludes : Excludes a entries number object [] s₀ [])
    (h : Chronicle a s₀ hs s hands) : Excludes a entries number object hs s hands := by
  induction h with
  | start => exact hexcludes
  | later h ht ih =>
    obtain ⟨now, released, rfl⟩ := ht
    exact ih.of_same rfl rfl rfl le_rfl
  | @receive hs s h m ih =>
    obtain ⟨hregistries, houtstanding, htransactions, hjournal⟩ := State.Told.registries (a.told_receive m s)
    exact ih.of_same hregistries (congrArg Outstanding.entries houtstanding) hjournal htransactions.ge
  | takeOn h m mapping ih => exact ih.takeOn (h.settled hservices hsettled) m mapping
  | takeUp h ih => exact ih.takeUp
  | drive h hpass ih => exact ih.drive hservices hordered hsole (h.settled hservices hsettled) hpass
  | expire h ih => exact ih.expire (h.settled hservices hsettled)

/-- Writers exclude each other. Where a registry locks whatever is to be written, and an object is registered there
alone, under whatever contexts: whatever happens to an agent with the standard services and without tasks in the
background, if nobody else takes locks, nobody prepares, commits or undoes anything on the object while somebody else
is engaged with it. -/
theorem exclusive_of_deeds (hservices : a.services = Agent.standardServices) (hinline : a.settings.maxConcurrent = 0)
    {s : Schedule Obj} (hidle : s.Idle) (hvacant : s.state.Vacant) (hjournal : s.state.journal = [])
    (hbuilt : ∀ r ∈ s.state.registries, r.Built) (hlocking : (s.state.registry number).locking.GuardsWrites)
    (hsole : ∀ other, ∀ e ∈ (s.state.registry other).entries, e.object = object → other = number)
    {deeds : List Deed} (hdeeds : ∀ registry locks, Deed.relock registry locks ∉ deeds) :
    (∃ enough hs, ∀ turns ≥ enough, Chronicle a s.state hs (a.performAll turns deeds s).state []) ∧
      ∀ hs t hands, Chronicle a s.state hs t hands → stepsOf hs = t.journal ∧ Exclusive object hs := by
  obtain ⟨enough, hs', t', hstory, hrun⟩ := chronicle_of_deeds hinline deeds hidle (.start (a := a)) hdeeds
  refine ⟨⟨enough, hs', fun turns hturns => hrun turns hturns ▸ hstory⟩, fun hs t hands h => ?_⟩
  have halone (other : Nat) : Registers (fun k => (s.state.registry k).entries) other object → other = number :=
    fun ⟨e, he, heq⟩ => hsole other e he heq
  have hexcludes := h.excludes hservices (State.ordered_registry hbuilt number) halone (.of_vacant hvacant)
    (.of_vacant hvacant hjournal hlocking)
  exact ⟨hexcludes.told, hexcludes.exclusive⟩

end Runs

/-- Two requests write the same variables. The first one is parked after it has prepared them, and the second one has
prepared nothing when it is parked, too. -/
theorem exclusive_of_deposits :
    let cellar : Schedule Instrument := ⟨vault, 100, [], [], [], 0, ⟨0⟩⟩
    let keeper := { custodian with settings := { custodian.settings with maxConcurrent := 0 } }
    let deeds := [.submit deposit, .submit deposit]
    let t := (keeper.performAll 100 deeds cellar).state
    t.outstanding.entries.map Tracked.id = [⟨0⟩, ⟨1⟩] ∧
    t.journal.map (fun st => (st.callback, st.object, st.who.transaction)) =
      [(.prepare, some ⟨0⟩, ⟨0⟩), (.prepare, some ⟨1⟩, ⟨0⟩)] ∧
    (∃ enough hs, ∀ turns ≥ enough, Chronicle keeper cellar.state hs (keeper.performAll turns deeds cellar).state []) ∧
      ∀ hs t hands, Chronicle keeper cellar.state hs t hands → stepsOf hs = t.journal ∧ Exclusive ⟨0⟩ hs := by
  intro cellar keeper deeds t
  have hvacant : cellar.state.Vacant := ⟨rfl, by simp [cellar, vault]⟩
  have hbuilt : ∀ r ∈ cellar.state.registries, r.Built := fun r hr =>
    ⟨[], {}, .writes, [.register ⟨0⟩ (vaultRegion ⟨0⟩) none, .register ⟨1⟩ (vaultRegion ⟨1⟩) none],
      List.mem_singleton.mp hr⟩
  have hsole (other : Nat) : ∀ e ∈ (cellar.state.registry other).entries, e.object = ⟨0⟩ → other = 0 := by
    cases other with
    | zero => exact fun _ _ _ => rfl
    | succ other => exact fun e he => by cases he
  have hlocking : (cellar.state.registry 0).locking.GuardsWrites := Locking.guardsWrites_writes
  exact ⟨by decide +kernel, by decide +kernel,
    exclusive_of_deeds rfl rfl ⟨rfl, rfl, rfl⟩ hvacant rfl hbuilt hlocking hsole (by simp [deeds])⟩

end Responder
