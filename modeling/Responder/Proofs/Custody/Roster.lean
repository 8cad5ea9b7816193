import Responder.Proofs.Conduct
import Responder.Proofs.Drive
import Responder.Proofs.Mediation.Dispatch
import Responder.Proofs.Outstanding

/-! Requests that go on. While an agent without tasks in the background deals with one request after the other, whatever
    is outstanding is at hand or parked, and each request that goes on has an entry of its own (`Roster`). A request
    begins, is parked, ends, is taken up again or expires, and it stays so, whoever holds which lock. -/

namespace Responder

variable {Obj : Type} {callable : Nat → ObjectId → Prop} {s t : State Obj} {hands left : List Pending} {p q : Pending}

/-- The request goes on: it is at hand, or parked. -/
def Pending.Lives (s : State Obj) (hands : List Pending) (p : Pending) : Prop :=
  p ∈ hands ∨ ∃ x ∈ s.outstanding.entries, x.parked = some p

theorem Pending.lives_congr (h : t.outstanding.entries = s.outstanding.entries) :
    p.Lives t hands ↔ p.Lives s hands := by
  rw [Lives, Lives, h]

theorem State.Told.registries (h : s.Told t) : t.registries = s.registries ∧ t.outstanding = s.outstanding ∧
    t.transactions = s.transactions ∧ t.journal = s.journal := by
  obtain ⟨_, _, _, rfl⟩ := h
  exact ⟨rfl, rfl, rfl, rfl⟩

/-- What is outstanding is parked or at hand, and every request that goes on is kept under its own transaction. -/
structure Roster (callable : Nat → ObjectId → Prop) (s : State Obj) (hands : List Pending) : Prop where
  distinct : (s.outstanding.entries.map Tracked.id).Nodup
  fresh : ∀ x ∈ s.outstanding.entries, x.id.number < s.transactions
  own : ∀ x ∈ s.outstanding.entries, ∀ p, x.parked = some p → p.request.transaction = x.id
  listed : ∀ p ∈ hands, ∃ x ∈ s.outstanding.entries, x.id = p.request.transaction ∧ x.parked = none
  once : (hands.map fun p => p.request.transaction).Nodup
  covered : ∀ x ∈ s.outstanding.entries, x.parked = none → ∃ p ∈ hands, p.request.transaction = x.id
  apt : ∀ p : Pending, p.Lives s hands → p.request.Apt p.request.requester (callable p.registry)

namespace Roster

theorem of_empty (h : s.outstanding.entries = []) : Roster callable s [] := by
  refine ⟨by simp [h], by simp [h], by simp [h], by simp, by simp, by simp [h], ?_⟩
  rintro q (hq | ⟨x, hx, -⟩)
  · cases hq
  · rw [h] at hx
    cases hx

/-- Nothing has changed in what is outstanding, but there may have been more transactions. -/
theorem of_same (h : Roster callable s hands) (houtstanding : t.outstanding.entries = s.outstanding.entries)
    (htransactions : s.transactions ≤ t.transactions) : Roster callable t hands where
  distinct := houtstanding ▸ h.distinct
  fresh x hx := (h.fresh x (houtstanding ▸ hx)).trans_le htransactions
  own := houtstanding ▸ h.own
  listed := houtstanding ▸ h.listed
  once := h.once
  covered := houtstanding ▸ h.covered
  apt p hp := h.apt p ((Pending.lives_congr houtstanding).mp hp)

/-- A request that goes on has an entry of its own. -/
theorem tracked (h : Roster callable s hands) (hp : p.Lives s hands) :
    ∃ x ∈ s.outstanding.entries, x.id = p.request.transaction ∧ (x.parked = none ∧ p ∈ hands ∨ x.parked = some p) := by
  rcases hp with hp | ⟨x, hx, hparked⟩
  · obtain ⟨x, hx, hid, hnone⟩ := h.listed p hp
    exact ⟨x, hx, hid, Or.inl ⟨hnone, hp⟩⟩
  · exact ⟨x, hx, (h.own x hx p hparked).symm, Or.inr hparked⟩

/-- No two requests that go on have one transaction. -/
theorem unique (h : Roster callable s hands) (hp : p.Lives s hands) (hq : q.Lives s hands)
    (hid : p.request.transaction = q.request.transaction) : p = q := by
  obtain ⟨x, hx, hxid, hxp⟩ := h.tracked hp
  obtain ⟨y, hy, hyid, hyq⟩ := h.tracked hq
  obtain rfl := List.inj_on_of_nodup_map h.distinct hx hy (hxid.trans (hid.trans hyid.symm))
  -- They share one entry, which is either parked or not.
  rcases hxp with ⟨hnone, hp⟩ | hparked
  · rcases hyq with ⟨-, hq⟩ | hparked
    · exact List.inj_on_of_nodup_map h.once hp hq hid
    · rw [hnone] at hparked
      cases hparked
  · rcases hyq with ⟨hnone, -⟩ | hparked'
    · rw [hnone] at hparked
      cases hparked
    · exact Option.some.inj (hparked.symm.trans hparked')

/-- The others at hand are those with another transaction. -/
theorem mem_rest_iff (h : Roster callable s (p :: hands)) :
    q ∈ hands ↔ q ∈ p :: hands ∧ q.request.transaction ≠ p.request.transaction := by
  constructor
  · refine fun hq => ⟨List.mem_cons_of_mem _ hq, fun heq => (List.nodup_cons.mp h.once).1 ?_⟩
    exact List.mem_map.mpr ⟨q, hq, heq⟩
  · rintro ⟨hq, hne⟩
    exact (List.mem_cons.mp hq).resolve_left fun heq => hne (heq ▸ rfl)

theorem id_ne_next (h : Roster callable s hands) {x : Tracked Pending} (hx : x ∈ s.outstanding.entries) :
    x.id ≠ ⟨s.transactions⟩ := by
  intro heq
  have hlt := h.fresh x hx
  rw [heq] at hlt
  exact Nat.lt_irrefl _ hlt

/-- Between two things that happen, what is outstanding is parked. -/
theorem parked (h : Roster callable s []) {x : Tracked Pending} (hx : x ∈ s.outstanding.entries) :
    ∃ p, x.parked = some p := by
  refine Option.ne_none_iff_exists'.mp fun hnone => ?_
  obtain ⟨q, hq, -⟩ := h.covered x hx hnone
  cases hq

/-! ### Requests that begin -/

theorem entries_opened (h : Roster callable s hands) : (Agent.opened s).outstanding.entries =
    s.outstanding.entries ++ [⟨⟨s.transactions⟩, s.now.plus s.outstanding.timeout, none⟩] := by
  have hremove : (s.outstanding.remove ⟨s.transactions⟩).entries = s.outstanding.entries :=
    List.filter_eq_self.mpr fun x hx => decide_eq_true (h.id_ne_next hx)
  show (s.outstanding.track ⟨s.transactions⟩ s.now).entries = _
  rw [Outstanding.track, hremove]

theorem mem_opened (h : Roster callable s hands) {x : Tracked Pending} : x ∈ (Agent.opened s).outstanding.entries ↔
    x ∈ s.outstanding.entries ∨ x = ⟨⟨s.transactions⟩, s.now.plus s.outstanding.timeout, none⟩ := by
  rw [h.entries_opened, List.mem_append, List.mem_singleton]

theorem lives_opened (h : Roster callable s []) : q.Lives (Agent.opened s) [p] ↔ q = p ∨ q.Lives s [] := by
  simp only [Pending.Lives, List.mem_singleton, List.not_mem_nil, false_or, h.mem_opened, or_and_right, exists_or,
    exists_eq_left, reduceCtorEq, or_false]

theorem opened (h : Roster callable s []) (hid : p.request.transaction = ⟨s.transactions⟩)
    (hp : p.request.Apt p.request.requester (callable p.registry)) : Roster callable (Agent.opened s) [p] := by
  refine ⟨?_, fun x hx => ?_, fun x hx q hq => ?_, fun q hq => ?_, by simp, fun x hx hnone => ?_, fun q hq => ?_⟩
  · rw [h.entries_opened, List.map_append, List.nodup_append]
    refine ⟨h.distinct, by simp, fun id hid other hother heq => ?_⟩
    obtain ⟨x, hx, rfl⟩ := List.mem_map.mp hid
    obtain rfl := List.mem_singleton.mp hother
    exact h.id_ne_next hx heq
  · rcases h.mem_opened.mp hx with hx | rfl
    · exact (h.fresh x hx).trans (Nat.lt_succ_self _)
    · exact Nat.lt_succ_self _
  · rcases h.mem_opened.mp hx with hx | rfl
    · exact h.own x hx q hq
    · cases hq
  · obtain rfl := List.mem_singleton.mp hq
    exact ⟨_, h.mem_opened.mpr (Or.inr rfl), hid.symm, rfl⟩
  · rcases h.mem_opened.mp hx with hx | rfl
    · obtain ⟨q, hq⟩ := h.parked hx
      rw [hnone] at hq
      cases hq
    · exact ⟨p, List.mem_singleton_self p, hid⟩
  · rcases h.lives_opened.mp hq with rfl | hq
    · exact hp
    · exact h.apt q hq

/-- A message that is served ends at once, or begins a request. -/
theorem takeOn_cases {a : Agent Obj} (h : Roster callable s []) (m : Inbound) (mapping : Option Mapping) :
    (∃ result t, a.takeOn m mapping s = (.inl result, t) ∧ t.registries = s.registries ∧
      t.outstanding.entries = s.outstanding.entries ∧ s.transactions ≤ t.transactions ∧ t.journal = s.journal) ∨
    ∃ registry, a.takeOn m mapping s = (.inr ⟨a.draft m mapping s, m, registry⟩, Agent.opened s) := by
  have hended {r : Request} (hr : r.transaction = ⟨s.transactions⟩) :
      ∃ result t, Agent.ended (a.finish r m none (Agent.opened s)) = (.inl result, t) ∧
        t.registries = s.registries ∧ t.outstanding.entries = s.outstanding.entries ∧
        s.transactions ≤ t.transactions ∧ t.journal = s.journal := by
    obtain ⟨hregistries, houtstanding, htransactions, hjournal⟩ := State.Told.registries <|
      a.told_send m (if m.version = .v1 then Reply.forV1 r.toResponse else r.toResponse) (r.pdu.kind == .getBulk)
        { Agent.opened s with outstanding := (Agent.opened s).outstanding.remove r.transaction }
    refine ⟨_, _, rfl, hregistries, (congrArg Outstanding.entries houtstanding).trans ?_,
      htransactions ▸ Nat.le_succ _, hjournal⟩
    -- The request was outstanding only until it was answered.
    rw [hr]
    show (Outstanding.remove _ _).entries = _
    rw [Outstanding.remove, h.entries_opened, List.filter_append, List.filter_eq_self.mpr, List.filter_singleton]
    · simp
    · exact fun x hx => decide_eq_true (h.id_ne_next hx)
  have hfailed (status : Status) : ((a.draft m mapping s).fail status).transaction = ⟨s.transactions⟩ := by
    unfold Request.fail
    split <;> rfl
  unfold Agent.takeOn
  split
  · obtain ⟨hregistries, houtstanding, htransactions, hjournal⟩ := State.Told.registries (a.told_refuse m s)
    exact Or.inl ⟨_, _, rfl, hregistries, congrArg Outstanding.entries houtstanding, htransactions.ge, hjournal⟩
  · split
    · exact Or.inl (hended (hfailed _))
    · split
      · exact Or.inl (hended (hfailed _))
      · exact Or.inr ⟨_, rfl⟩

/-! ### Requests that are parked -/

/-- To park a request that is outstanding fills its entry. -/
theorem park_eq (h : Roster callable s (p :: hands)) (hid : q.request.transaction = p.request.transaction) :
    Agent.park q s = { s with outstanding := { s.outstanding with
      entries := s.outstanding.entries.map fun x =>
        if x.id = q.request.transaction then { x with parked := some q } else x } } := by
  obtain ⟨x, hx, hxid, -⟩ := h.listed p List.mem_cons_self
  have hcontains : s.outstanding.contains q.request.transaction = true :=
    List.any_eq_true.mpr ⟨x, hx, decide_eq_true (hxid.trans hid.symm)⟩
  simp only [Agent.park, Outstanding.park?, if_pos hcontains]

theorem mem_park (h : Roster callable s (p :: hands)) (hid : q.request.transaction = p.request.transaction)
    {y : Tracked Pending} : y ∈ (Agent.park q s).outstanding.entries ↔
      (y ∈ s.outstanding.entries ∧ y.id ≠ p.request.transaction) ∨
        ∃ x ∈ s.outstanding.entries, x.id = p.request.transaction ∧ y = { x with parked := some q } := by
  rw [h.park_eq hid, hid, List.mem_map]
  constructor
  · rintro ⟨x, hx, rfl⟩
    split
    · next heq => exact Or.inr ⟨x, hx, heq, rfl⟩
    · next hne => exact Or.inl ⟨hx, hne⟩
  · rintro (⟨hy, hne⟩ | ⟨x, hx, heq, rfl⟩)
    · exact ⟨y, hy, if_neg hne⟩
    · exact ⟨x, hx, if_pos heq⟩

theorem lives_park (h : Roster callable s (p :: hands)) (hid : q.request.transaction = p.request.transaction)
    {o : Pending} : o.Lives (Agent.park q s) hands ↔
      o = q ∨ o.Lives s (p :: hands) ∧ o.request.transaction ≠ p.request.transaction := by
  constructor
  · rintro (ho | ⟨y, hy, hparked⟩)
    · exact Or.inr ((h.mem_rest_iff.mp ho).imp_left Or.inl)
    · obtain ⟨hy, hne⟩ | ⟨x, -, -, rfl⟩ := (h.mem_park hid).mp hy
      · exact Or.inr ⟨Or.inr ⟨y, hy, hparked⟩, h.own y hy o hparked ▸ hne⟩
      · exact Or.inl (Option.some.inj hparked).symm
  · rintro (rfl | ⟨ho | ⟨y, hy, hparked⟩, hne⟩)
    · obtain ⟨x, hx, hxid, -⟩ := h.listed p List.mem_cons_self
      exact Or.inr ⟨_, (h.mem_park hid).mpr (Or.inr ⟨x, hx, hxid, rfl⟩), rfl⟩
    · exact Or.inl (h.mem_rest_iff.mpr ⟨ho, hne⟩)
    · exact Or.inr ⟨y, (h.mem_park hid).mpr (Or.inl ⟨hy, h.own y hy o hparked ▸ hne⟩), hparked⟩

/-- A request that was at hand is parked, in whatever way it has gone on. -/
theorem park (h : Roster callable s (p :: hands)) {r : Request}
    (hr : r.Apt p.request.requester (callable p.registry)) :
    Roster callable (Agent.park { p with request := r } s) hands := by
  have hid : r.transaction = p.request.transaction := congrArg Requester.transaction hr.requester
  have hmem {y : Tracked Pending} := h.mem_park (q := { p with request := r }) hid (y := y)
  have hrest := (List.nodup_cons.mp h.once).2
  -- The entry of the request is filled, and all the others are as they were (`mem_park`).
  refine ⟨?_, fun y hy => ?_, fun y hy q hq => ?_, fun q hq => ?_, hrest, fun y hy hnone => ?_, fun q hq => ?_⟩
  · rw [h.park_eq hid]
    have hsame (x : Tracked Pending) : Tracked.id (if x.id = r.transaction then
        { x with parked := some { p with request := r } } else x) = x.id := by split <;> rfl
    simpa only [List.map_map, Function.comp_def, hsame] using h.distinct
  · rw [h.park_eq hid]
    rcases hmem.mp hy with ⟨hy, -⟩ | ⟨x, hx, -, rfl⟩
    · exact h.fresh y hy
    · exact h.fresh x hx
  · rcases hmem.mp hy with ⟨hy, -⟩ | ⟨x, -, hxid, rfl⟩
    · exact h.own y hy q hq
    · obtain rfl := Option.some.inj hq
      exact hid.trans hxid.symm
  · obtain ⟨hq, hne⟩ := h.mem_rest_iff.mp hq
    obtain ⟨x, hx, hxid, hnone⟩ := h.listed q hq
    exact ⟨x, hmem.mpr (Or.inl ⟨hx, hxid ▸ hne⟩), hxid, hnone⟩
  · rcases hmem.mp hy with ⟨hy, hne⟩ | ⟨x, -, -, rfl⟩
    · obtain ⟨q, hq, hqid⟩ := h.covered y hy hnone
      exact ⟨q, h.mem_rest_iff.mpr ⟨hq, hqid ▸ hne⟩, hqid⟩
    · cases hnone
  · rcases (h.lives_park hid).mp hq with rfl | ⟨hq, -⟩
    · exact hr.requester.symm ▸ hr
    · exact h.apt q hq

theorem lives_takeUp : q.Lives { s with outstanding := s.outstanding.takeParked.2 }
    (s.outstanding.takeParked.1.map fun x => x.2.retry) ↔ ∃ p : Pending, p.Lives s [] ∧ q = p.retry := by
  have hempty : ¬∃ x ∈ s.outstanding.takeParked.2.entries, x.parked = some q := by
    rintro ⟨x, hx, hq⟩
    obtain ⟨y, -, rfl⟩ := List.mem_map.mp hx
    cases hq
  constructor
  · intro hq
    obtain ⟨x, hx, rfl⟩ := List.mem_map.mp (hq.resolve_right hempty)
    obtain ⟨y, hy, hparked, -⟩ := s.outstanding.mem_takeParked.mp hx
    exact ⟨x.2, Or.inr ⟨y, hy, hparked⟩, rfl⟩
  · rintro ⟨p, hp, rfl⟩
    obtain ⟨y, hy, hparked⟩ := hp.resolve_left List.not_mem_nil
    have hx : (y.id, p) ∈ s.outstanding.takeParked.1 := s.outstanding.mem_takeParked.mpr ⟨y, hy, hparked, rfl⟩
    exact Or.inl (List.mem_map.mpr ⟨_, hx, rfl⟩)

/-- All that is parked is taken up again, and is at hand. -/
theorem takeUp (h : Roster callable s []) : Roster callable { s with outstanding := s.outstanding.takeParked.2 }
    (s.outstanding.takeParked.1.map fun x => x.2.retry) := by
  have hmem {x : TransactionId × Pending} := s.outstanding.mem_takeParked (x := x)
  have hnone {x : Tracked Pending} (hx : x ∈ s.outstanding.takeParked.2.entries) : x.parked = none := by
    obtain ⟨y, -, rfl⟩ := List.mem_map.mp hx
    rfl
  have hids : s.outstanding.takeParked.2.entries.map Tracked.id = s.outstanding.entries.map Tracked.id := by
    simp only [Outstanding.takeParked, List.map_map]
    rfl
  have hown {x : TransactionId × Pending} (hx : x ∈ s.outstanding.takeParked.1) :
      x.2.retry.request.transaction = x.1 := by
    obtain ⟨y, hy, hq, hid⟩ := hmem.mp hx
    exact (h.own y hy x.2 hq).trans hid
  refine ⟨hids ▸ h.distinct, fun x hx => ?_, fun x hx q hq => ?_, fun q hq => ?_, ?_, fun x hx _ => ?_, fun q hq => ?_⟩
  · obtain ⟨y, hy, rfl⟩ := List.mem_map.mp hx
    exact h.fresh y hy
  · rw [hnone hx] at hq
    cases hq
  · obtain ⟨x, hx, rfl⟩ := List.mem_map.mp hq
    obtain ⟨y, hy, -, hid⟩ := hmem.mp hx
    exact ⟨{ y with parked := none }, List.mem_map.mpr ⟨y, hy, rfl⟩, hid.trans (hown hx).symm, rfl⟩
  · rw [List.map_map]
    refine (List.map_congr_left fun x hx => ?_) ▸ s.outstanding.nodup_takeParked h.distinct
    exact (hown hx).symm
  · obtain ⟨y, hy, rfl⟩ := List.mem_map.mp hx
    obtain ⟨q, hq⟩ := h.parked hy
    have hx : (y.id, q) ∈ s.outstanding.takeParked.1 := hmem.mpr ⟨y, hy, hq, rfl⟩
    exact ⟨q.retry, List.mem_map.mpr ⟨_, hx, rfl⟩, hown hx⟩
  · obtain ⟨p, hp, rfl⟩ := lives_takeUp.mp hq
    exact (h.apt p hp).retry

/-! ### Requests that end -/

/-- Some requests are no longer outstanding. -/
theorem leave (h : Roster callable s hands) {keep : Tracked Pending → Bool}
    (hkeep : t.outstanding.entries = s.outstanding.entries.filter keep)
    (htransactions : t.transactions = s.transactions) (hsub : left.Sublist hands)
    (hleft : ∀ p ∈ hands, ∀ x ∈ s.outstanding.entries, x.id = p.request.transaction → (p ∈ left ↔ keep x = true)) :
    Roster callable t left where
  distinct := by
    rw [hkeep]
    exact h.distinct.sublist (List.filter_sublist.map _)
  fresh x hx := by
    rw [hkeep] at hx
    rw [htransactions]
    exact h.fresh x (List.mem_filter.mp hx).1
  own x hx := by
    rw [hkeep] at hx
    exact h.own x (List.mem_filter.mp hx).1
  listed p hp := by
    obtain ⟨x, hx, hid, hnone⟩ := h.listed p (hsub.subset hp)
    refine ⟨x, ?_, hid, hnone⟩
    rw [hkeep]
    exact List.mem_filter.mpr ⟨hx, (hleft p (hsub.subset hp) x hx hid).mp hp⟩
  once := h.once.sublist (hsub.map _)
  covered x hx hnone := by
    rw [hkeep] at hx
    obtain ⟨hmem, hkept⟩ := List.mem_filter.mp hx
    obtain ⟨p, hp, hid⟩ := h.covered x hmem hnone
    exact ⟨p, (hleft p hp x hmem hid.symm).mpr hkept, hid⟩
  apt p hp := by
    refine h.apt p (hp.imp (fun hp => hsub.subset hp) ?_)
    rintro ⟨x, hx, hparked⟩
    rw [hkeep] at hx
    exact ⟨x, (List.mem_filter.mp hx).1, hparked⟩

section Quit
variable (h : Roster callable s (p :: hands))
  (houtstanding : t.outstanding = s.outstanding.remove p.request.transaction)
include h houtstanding

theorem lives_quit :
    q.Lives t hands ↔ q.Lives s (p :: hands) ∧ q.request.transaction ≠ p.request.transaction := by
  have hmem {x : Tracked Pending} : x ∈ t.outstanding.entries ↔
      x ∈ s.outstanding.entries ∧ x.id ≠ p.request.transaction := by
    rw [houtstanding, Outstanding.remove, List.mem_filter, decide_eq_true_eq]
  constructor
  · rintro (hq | ⟨x, hx, hparked⟩)
    · exact (h.mem_rest_iff.mp hq).imp_left Or.inl
    · obtain ⟨hx, hne⟩ := hmem.mp hx
      exact ⟨Or.inr ⟨x, hx, hparked⟩, h.own x hx q hparked ▸ hne⟩
  · rintro ⟨hq | ⟨x, hx, hparked⟩, hne⟩
    · exact Or.inl (h.mem_rest_iff.mpr ⟨hq, hne⟩)
    · exact Or.inr ⟨x, hmem.mpr ⟨hx, h.own x hx q hparked ▸ hne⟩, hparked⟩

theorem quit (htransactions : t.transactions = s.transactions) : Roster callable t hands := by
  have hkeep : t.outstanding.entries = s.outstanding.entries.filter fun x => x.id ≠ p.request.transaction := by
    rw [houtstanding, Outstanding.remove]
  refine h.leave hkeep htransactions (List.sublist_cons_self p hands) fun q hq x hx hid => ?_
  rw [hid, decide_eq_true_eq, h.mem_rest_iff, and_iff_right hq]

end Quit

theorem entries_expire (s : State Obj) : (Agent.expire s).2.outstanding.entries =
    s.outstanding.entries.filter fun x => !x.deadline.isBy s.now := by
  have hentries := congrArg (fun s : State Obj => s.outstanding.entries) (Agent.bare_expire s)
  exact hentries

theorem transactions_expire (s : State Obj) : (Agent.expire s).2.transactions = s.transactions := by
  have htransactions := congrArg State.transactions (Agent.bare_expire s)
  exact htransactions

theorem lives_expire (h : Roster callable s []) : q.Lives (Agent.expire s).2 [] ↔
    q.Lives s [] ∧ (q.request.transaction, some q) ∉ (s.outstanding.expire s.now).1 := by
  have hmem {x : Tracked Pending} : x ∈ (Agent.expire s).2.outstanding.entries ↔
      x ∈ s.outstanding.entries ∧ x.deadline.isBy s.now = false := by
    rw [entries_expire, List.mem_filter, Bool.not_eq_true']
  simp only [Outstanding.expire, List.mem_map, List.mem_filter, Prod.mk.injEq]
  constructor
  · intro hq
    obtain ⟨x, hx, hparked⟩ := hq.resolve_left List.not_mem_nil
    obtain ⟨hx, hopen⟩ := hmem.mp hx
    refine ⟨Or.inr ⟨x, hx, hparked⟩, ?_⟩
    rintro ⟨y, ⟨hy, hdue⟩, hid, -⟩
    obtain rfl := List.inj_on_of_nodup_map h.distinct hx hy ((h.own x hx q hparked).symm.trans hid.symm)
    exact Bool.false_ne_true (hopen.symm.trans hdue)
  · rintro ⟨hq, hexpired⟩
    obtain ⟨x, hx, hparked⟩ := hq.resolve_left List.not_mem_nil
    refine Or.inr ⟨x, hmem.mpr ⟨hx, Bool.eq_false_iff.mpr fun hdue => hexpired ?_⟩, hparked⟩
    exact ⟨x, ⟨hx, hdue⟩, (h.own x hx q hparked).symm, hparked⟩

/-- Requests expire when none is at hand. -/
theorem expire (h : Roster callable s []) : Roster callable (Agent.expire s).2 [] :=
  h.leave (entries_expire s) (transactions_expire s) (List.Sublist.refl []) (by simp)

end Roster
end Responder
