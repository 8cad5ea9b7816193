import Responder.Proofs.Custody.Release
import Responder.Proofs.Set.Tending

/-! A request that writes is restored also if an error of its instrumentation is passed on. Whatever its objects do,
    whatever the others do meanwhile and however often it is taken up again, it is neither answered nor outstanding any
    more and holds no lock, each item whose object was found has been cleaned up once, and what was prepared has been
    undone if anything failed while it was prepared or committed (`restored_of_pursues`). Only a pass that breaks off in
    the midst of undoing leaves its request as it is. -/

namespace Responder

variable {Obj : Type} {a : Agent Obj} {rely : State Obj → State Obj → Prop} {m : Inbound} {mapping : Option Mapping}
  {s₀ s t : State Obj} {p : Pending} {error : Error}

theorem Agent.result_send (m : Inbound) (pdu : Pdu) (bulk : Bool) (s : State Obj) :
    (a.send m pdu bulk s).1 = .ok () ∨ (a.send m pdu bulk s).1 = .error .undelivered := by
  unfold send
  split
  · exact Or.inl rfl
  · split
    · exact Or.inr rfl
    · exact Or.inl rfl

variable [ManagedObject Obj]

/-- What is left of a request, from before it was made, when a pass over it has ended in an error that is passed on. -/
structure Agent.Forsakes (a : Agent Obj) (rely : State Obj → State Obj → Prop) (s₀ s : State Obj) (p : Pending)
    (error : Error) (t : State Obj) : Prop where
  /-- Nothing was ever handed over but by others. -/
  silent : ∀ theirs : Outbound → Prop, (∀ s t, rely s t → s.Hands theirs t) → s₀.Hands theirs t
  untracked : ∀ x ∈ t.outstanding.entries, x.id ≠ p.request.transaction
  /-- It holds no lock of its registry, and none of another one that it has not been given by others. -/
  unlocked : ∀ number, (number ≠ p.registry → s₀.Unheld number p.request.transaction ∧
    ∀ s t, rely s t → s.Unheld number p.request.transaction → t.Unheld number p.request.transaction) →
      t.Unheld number p.request.transaction
  /-- It is restored, unless the pass has broken off in the midst of undoing. -/
  restored : ∃ r u, (a.pass p).Yields rely s (some (r, some error)) u ∧
    t = Agent.drop p.registry p.request.transaction u ∧
      ((r.phase = .undo ∧ ∃ x ∈ r.items, x.deferred = true) ∨ Set.Restored (t.history p.request.transaction))

/-- An error of instrumentation is passed on from a pass that has ended in it. -/
theorem Agent.forsaken_of_yields {oid : Oid} {fault : Fault}
    (hdrive : (a.drive p).Yields rely s (.error (.instrumentation oid fault)) t) :
    ∃ r u, (a.pass p).Yields rely s (some (r, some (.instrumentation oid fault))) u ∧
      t = drop p.registry p.request.transaction u := by
  rw [drive_eq] at hdrive
  obtain ⟨out, u, hpass, hlast⟩ := Progress.Yields.of_bind hdrive
  obtain ⟨hresult, rfl⟩ := Progress.yields_done.mp hlast
  rcases out with _ | ⟨r, _ | error⟩
  · cases hresult
  · by_cases hcomplete : r.isComplete = true
    · simp only [if_pos hcomplete, finish] at hresult
      rcases a.result_send p.message _ _ _ with hsent | hsent <;> cases hresult.trans hsent
    · simp only [if_neg hcomplete, reduceCtorEq] at hresult
  · cases hresult
    exact ⟨r, u, hpass, rfl⟩

/-- Requests that write are restored also where an error is passed on. Take an agent with the standard services, and a
request to write that it has made for a message. Whatever the objects do, whatever the others do while the request
waits, as long as they leave its history alone, and however many passes there have been: if the request is driven and an
error of its instrumentation is passed on, nothing was ever handed over for it, it is no longer outstanding and holds no
lock; and unless the pass broke off at an item that its object defers when it is undone, each item whose object was
found was cleaned up once, and if anything failed while items were prepared or committed, all that was prepared has been
undone. -/
theorem restored_of_pursues (hservices : a.services = Agent.standardServices) (hkind : m.pdu.kind = .set)
    (hfresh : s₀.history ⟨s₀.transactions⟩ = []) (hrely : ∀ s t, rely s t → Aside ⟨s₀.transactions⟩ s t)
    (h : a.Pursues rely m mapping s₀ p s) {oid : Oid} {fault : Fault}
    (hdrive : (a.drive p).Yields rely s (.error (.instrumentation oid fault)) t) :
    p.request.transaction = ⟨s₀.transactions⟩ ∧ a.Forsakes rely s₀ s p (.instrumentation oid fault) t := by
  obtain ⟨-, hmade, hapt⟩ := h.made hservices
  have hid := h.transaction_eq hservices
  obtain ⟨r, u, hpass, rfl⟩ := Agent.forsaken_of_yields hdrive
  have hquits := Agent.quits_drop p u
  refine ⟨hid, fun theirs htheirs => ?_, fun x hx => ?_, fun number hnumber x hx howner => ?_, r, u, hpass, rfl, ?_⟩
  · have hpassed := Agent.pass_hands hservices hapt hpass htheirs (h.hands hservices htheirs)
    exact hpassed.trans (.of_sent (Agent.sent_drop u _ _))
  · rw [hquits.outstanding, Outstanding.remove, List.mem_filter, decide_eq_true_eq] at hx
    exact hx.2
  · obtain ⟨hx, hkept⟩ := (hquits.clears.holds number x).mp hx
    have hother : number ≠ p.registry := fun heq => hkept ⟨heq, howner⟩
    obtain ⟨hs₀, htheirs⟩ := hnumber hother
    rw [hid] at hs₀ htheirs howner
    exact Agent.pass_unheld hservices hapt hpass htheirs hother (h.unheld hservices htheirs hother hs₀) x hx howner
  · rw [State.history_congr hquits.clears.journal]
    have hwrites : p.request.pdu.kind = .set :=
      hapt.kind.trans ((congrArg Requester.kind hmade).trans hkind)
    have hready := h.upheld hservices (Set.upholds_attended hservices) hfresh hrely
    rw [← hid] at hrely hready
    exact Set.restored_of_yields hservices hwrites hready (hpass.mono hrely)

/-- What serves each message where it arrives, and passes on faults of its objects. -/
def strict : Agent Instrument := { Agent.plain with settings := { maxConcurrent := 0, forwardFaults := true } }

/-- A request that is parked while it is prepared, and whose second commit fails when it is taken up again. -/
theorem restored_of_probing :
    let probe : Inbound := .ofUser [117] .noAuthNoPriv [] [] Set.writer.peer Set.probing
    let error : Error := .instrumentation ⟨[2, 0]⟩ ⟨none, "disk full"⟩
    ∃ p s t, strict.Pursues (Aside ⟨0⟩) probe none Set.probes p s ∧
      (strict.drive p).Yields (Aside ⟨0⟩) s (.error error) t ∧
      (t.history ⟨0⟩).map (fun st => (st.callback, st.index, st.faulted)) =
        [(.prepare, 0, false), (.prepare, 0, false), (.prepare, 1, false), (.commit, 0, false), (.commit, 1, true),
          (.undo, 0, false), (.undo, 1, false), (.cleanup, 0, false), (.cleanup, 1, false)] ∧
      p.request.transaction = ⟨0⟩ ∧ strict.Forsakes (Aside ⟨0⟩) Set.probes s p error t := by
  intro probe error
  have hrun : ((strict.takeOn probe none Set.probes).1.getRight?.bind fun p =>
      (strict.pass p (Agent.opened Set.probes)).result?.bind fun x => x.1.bind fun out =>
        if out.2 = none ∧ out.1.isComplete = false then
          (strict.drive (Pending.retry { p with request := out.1 })
            (Agent.park { p with request := out.1 } x.2)).result?.map fun y => (p, out.1, y)
        else none).any (fun z => decide (z.2.2.1 = .error error) &&
          decide ((z.2.2.2.history ⟨0⟩).map (fun st => (st.callback, st.index, st.faulted)) =
            [(.prepare, 0, false), (.prepare, 0, false), (.prepare, 1, false), (.commit, 0, false), (.commit, 1, true),
              (.undo, 0, false), (.undo, 1, false), (.cleanup, 0, false), (.cleanup, 1, false)])) = true := by
    decide +kernel
  rw [Option.any_eq_true] at hrun
  obtain ⟨⟨p, _, _, t⟩, hrun, htest⟩ := hrun
  simp only [Bool.and_eq_true, decide_eq_true_eq] at htest
  obtain ⟨rfl, hhistory⟩ := htest
  obtain ⟨_, htaken, hrun⟩ := Option.bind_eq_some_iff.mp hrun
  obtain ⟨⟨_, t₁⟩, hpass, hrun⟩ := Option.bind_eq_some_iff.mp hrun
  obtain ⟨⟨r, _⟩, rfl, hrun⟩ := Option.bind_eq_some_iff.mp hrun
  rw [Option.ite_none_right_eq_some] at hrun
  obtain ⟨⟨rfl, hopen⟩, hrun⟩ := hrun
  obtain ⟨_, hdrive, heq⟩ := Option.map_eq_some_iff.mp hrun
  cases heq
  let parked : Pending := { p with request := r }
  have hpursued : strict.Pursues (Aside ⟨0⟩) probe none Set.probes parked.retry (Agent.park parked t₁) :=
    .again (.first (Agent.takeOn_of_getRight? htaken)) (Activity.yields_of_result? hpass) hopen rfl
  have hyields : (strict.drive parked.retry).Yields (Aside ⟨0⟩) (Agent.park parked t₁) (.error error) t :=
    Activity.yields_of_result? hdrive
  have hrely : ∀ s t : State Instrument, Aside ⟨0⟩ s t → Aside ⟨Set.probes.transactions⟩ s t := fun _ _ => id
  exact ⟨_, _, t, hpursued, hyields, hhistory, restored_of_pursues rfl rfl rfl hrely hpursued hyields⟩

/-- An object whose cleanup fails after its item was committed. The error is passed on, and nothing is undone. -/
theorem unrestored_of_cleanup :
    let stuck : Scripted := ⟨.subtree ⟨[1]⟩, .empty, fun callback =>
      if callback = .cleanup then [{ fault := some ⟨none, "stuck"⟩ }] else []⟩
    let bench : Schedule Instrument :=
      ⟨{ Set.probes with objects := fun _ => .scripted stuck }, 100, [], [], [], 0, ⟨0⟩⟩
    let probe : Inbound :=
      .ofUser [117] .noAuthNoPriv [] [] Set.writer.peer (.setting 1 [⟨⟨[1, 0]⟩, .integer 1⟩])
    let t := (strict.submit 100 probe bench).2.state
    (strict.submit 100 probe bench).1 = some (.error (.instrumentation ⟨[1, 0]⟩ ⟨none, "stuck"⟩)) ∧
      Set.Prepared (t.history ⟨0⟩) 0 ∧ ∀ st ∈ t.history ⟨0⟩, st.callback ≠ .undo := by
  intro stuck bench probe t
  unfold Set.Prepared Occurs
  decide +kernel

end Responder
