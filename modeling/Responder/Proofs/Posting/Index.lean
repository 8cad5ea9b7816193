import Responder.Proofs.Posting.Correspondence

/-! Error indexes. What is handed over for a request has an index that points to the binding of the first item with an
    error, whatever the version and the size limit (`indexed_of_deeds`), but for bulk answers that are cut: they keep
    their index, also where it points beyond the bindings that are left (`not_indexed_of_quarry`). -/

namespace Responder

/-! ### Numbers as indexes -/

namespace Request

theorem toInt_clampIndex (n : Nat) : 0 ≤ (clampIndex n).toInt ∧ (clampIndex n).toInt ≤ n ∧
    (0 < (clampIndex n).toInt → 0 < n) := by
  unfold clampIndex
  split
  · next h =>
    rw [Int32.toInt_ofNat_of_lt (by omega)]
    omega
  · next h =>
    have hmax : Int32.maxValue.toInt = 2147483647 := by decide
    rw [hmax]
    omega

end Request

/-- What is an error to others is one to the first version. -/
theorem Status.code_forV1_ne_zero {code : Int32} (h : code ≠ 0) : (ofCode code).forV1.code ≠ 0 := by
  unfold ofCode
  split
  · next hnonneg =>
    obtain ⟨n, hn⟩ : ∃ n, code.toInt.toNat = n + 1 := by
      refine Nat.exists_eq_succ_of_ne_zero fun hzero => h (Int32.toInt_inj.mp ?_)
      rw [Int32.toInt_zero]
      omega
    rw [hn]
    cases hknown : known[n + 1]? with
    | none => exact h
    | some status =>
      have hall : ∀ status ∈ known.tail, status.forV1.code ≠ 0 := by decide
      exact hall status (List.mem_of_getElem? hknown)
  · exact h

namespace Reply

/-- The index of what is handed over in answer to a request. -/
structure Indexed (r : Request) (version : Version) (p : Pdu) : Prop where
  nonneg : 0 ≤ p.errorIndex.toInt
  /-- The index is that of a binding. Only where a bulk answer is cut it can be that of one that was lost. -/
  within : p.errorIndex.toInt ≤ p.bindings.length ∨
    r.pdu.kind = .getBulk ∧ p.bindings.length < r.items.length ∧ p.errorIndex.toInt ≤ r.items.length
  /-- There is an error, unless what is reported has no meaning, and the code for no error. -/
  status : 0 < p.errorIndex.toInt → p.errorStatus ≠ 0 ∨ r.reportedStatus = .unknown 0
  /-- What the index points to is the first item with an error. -/
  first : version ≠ .v1 → 0 < p.errorIndex.toInt → ∃ i x, r.items[i]? = some x ∧ x.hasError = true ∧
    (∀ j < i, ∀ y, r.items[j]? = some y → y.hasError = false) ∧ p.errorIndex = Request.clampIndex (i + 1) ∧
      (i < p.bindings.length → p.bindings[i]? = some x.binding)

variable {r : Request} {version : Version} {p p' : Pdu} {limit : Nat}

theorem errorIndex_toResponse (r : Request) :
    r.toResponse.errorIndex = (if r.reportedStatus.isError then Request.clampIndex r.errorIndex else 0) ∧
      r.toResponse.errorStatus = if r.reportedStatus.isError then r.reportedStatus.code else 0 := by
  unfold Request.toResponse Request.responseHeader
  split <;> exact ⟨rfl, rfl⟩

theorem errorIndex_le (r : Request) : r.errorIndex ≤ r.items.length := by
  unfold Request.errorIndex
  split
  · next i hi => exact (List.findIdx?_eq_some_iff_getElem.mp hi).1
  · exact Nat.zero_le _

theorem code_ne_zero {status : Status} (herror : status.isError = true) (hknown : status ≠ .unknown 0) :
    status.code ≠ 0 := by
  cases status with
  | unknown c => exact fun hc => hknown (congrArg Status.unknown hc)
  | noError => cases herror
  | _ => decide

theorem indexed_toResponse (r : Request) (version : Version) : Indexed r version r.toResponse := by
  obtain ⟨hindex, hstatus⟩ := errorIndex_toResponse r
  have hlength : r.toResponse.bindings.length = r.items.length := List.length_map _
  cases herror : r.reportedStatus.isError with
  | false =>
    rw [herror, if_neg Bool.false_ne_true] at hindex
    refine ⟨?_, Or.inl ?_, fun hpos => ?_, fun _ hpos => ?_⟩
    all_goals rw [hindex] at *
    · exact le_rfl
    · exact Int.natCast_nonneg _
    · cases hpos
    · cases hpos
  | true =>
    rw [herror, if_pos rfl] at hindex hstatus
    obtain ⟨hnonneg, hle, hpos⟩ := Request.toInt_clampIndex r.errorIndex
    refine ⟨hindex ▸ hnonneg, Or.inl ?_, fun _ => ?_, fun _ hlt => ?_⟩
    · have := errorIndex_le r
      rw [hindex, hlength]
      omega
    · by_cases hunknown : r.reportedStatus = .unknown 0
      · exact Or.inr hunknown
      · exact Or.inl (hstatus ▸ code_ne_zero herror hunknown)
    · rw [hindex] at hlt ⊢
      have hsome := hpos hlt
      unfold Request.errorIndex at hsome ⊢
      cases hfound : r.items.findIdx? Item.hasError with
      | none => simp [hfound] at hsome
      | some i =>
        obtain ⟨hi, hfailed, hbefore⟩ := List.findIdx?_eq_some_iff_getElem.mp hfound
        refine ⟨i, r.items[i], List.getElem?_eq_getElem hi, hfailed, fun j hj y hy => ?_, rfl, fun _ => ?_⟩
        · obtain ⟨hj', rfl⟩ := List.getElem?_eq_some_iff.mp hy
          exact Bool.eq_false_iff.mpr (hbefore j hj)
        · simp [Request.toResponse, List.getElem?_eq_getElem hi]

/-- To the first version a marker is reported in place of the error. -/
theorem indexed_forV1 (r : Request) : Indexed r .v1 (forV1 r.toResponse) := by
  have hwhole := indexed_toResponse r .v1
  unfold forV1
  cases hmarker : firstException? r.toResponse.bindings with
  | none =>
    refine ⟨hwhole.nonneg, hwhole.within, fun hpos => ?_, fun hversion => absurd rfl hversion⟩
    dsimp only at hpos ⊢
    rcases hwhole.status hpos with hstatus | hunknown
    · exact Or.inl (Status.code_forV1_ne_zero hstatus)
    · exact Or.inr hunknown
  | some i =>
    obtain ⟨hi, -, -⟩ := List.findIdx?_eq_some_iff_getElem.mp hmarker
    obtain ⟨hnonneg, hle, -⟩ := Request.toInt_clampIndex (i + 1)
    have hcode : Status.noSuchName.code ≠ 0 := by decide
    refine ⟨hnonneg, Or.inl ?_, fun _ => Or.inl hcode, fun hversion => absurd rfl hversion⟩
    have hlength : (clearValue r.toResponse i).bindings.length = r.toResponse.bindings.length := List.length_modify ..
    dsimp only
    rw [hlength]
    exact hle.trans (Int.ofNat_le.mpr hi)

theorem indexed_answer (r : Request) (version : Version) : Indexed r version (r.answer version) := by
  unfold Request.answer
  split
  · next hversion => exact hversion ▸ indexed_forV1 r
  · exact indexed_toResponse r version

theorem length_answer (r : Request) (version : Version) : (r.answer version).bindings.length = r.items.length := by
  have hlength : r.toResponse.bindings.length = r.items.length := List.length_map _
  unfold Request.answer
  split
  · unfold forV1
    split
    · exact (List.length_modify ..).trans hlength
    · exact hlength
  · exact hlength

/-- What of an answer fits is indexed as the answer is. -/
theorem Indexed.fit (hfitted : Fitted limit (r.pdu.kind == .getBulk) (r.answer version) (some p)) :
    Indexed r version p := by
  have hwhole := indexed_answer r version
  have hlength := length_answer r version
  cases hfitted with
  | whole => exact hwhole
  | part count hlarge hkind hbulk hcount =>
    have hle : (r.answer version).errorIndex.toInt ≤ r.items.length := by
      rcases hwhole.within with hin | ⟨-, -, hin⟩
      · exact hlength ▸ hin
      · exact hin
    refine ⟨hwhole.nonneg, ?_, hwhole.status, fun hversion hpos => ?_⟩
    · rcases Nat.lt_or_ge count r.items.length with hlt | hge
      · refine Or.inr ⟨eq_of_beq hbulk, ?_, hle⟩
        rw [List.length_take, hlength]
        omega
      · left
        rw [List.length_take, hlength, min_eq_right hge]
        exact hle
    · obtain ⟨i, x, hx, hfailed, hbefore, hindex, hbinding⟩ := hwhole.first hversion hpos
      refine ⟨i, x, hx, hfailed, hbefore, hindex, fun hi => ?_⟩
      dsimp only at hi ⊢
      rw [List.length_take] at hi
      rw [List.getElem?_take_of_lt (by omega)]
      exact hbinding (by omega)
  | tooBig =>
    refine ⟨le_rfl, Or.inl (Int.natCast_nonneg _), fun hpos => ?_, fun _ hpos => ?_⟩ <;> cases hpos

end Reply

theorem Agent.Concluded.kind {Obj : Type} {a : Agent Obj} {m₀ : Inbound} {mapping : Option Mapping} {r : Request}
    (hdiscreet : ∀ service ∈ a.services, service.Discreet) (h : a.Concluded m₀ mapping r) :
    r.pdu.kind = m₀.pdu.kind := by
  cases h with
  | @completed p s t r hp hpass =>
    have hkept := pass_ensures hdiscreet (I := fun _ => True) (fun _ _ _ => id) hp.apt (s := s) trivial
    exact (((Activity.ensures_iff.mp hkept).2 _ t hpass).2 r none rfl).kind.trans hp.kind
  | failed =>
    rw [Request.fail_pdu, limited_eq]
    rfl

/-- Error indexes are well-formed. Whatever happens to an agent to whose standard services others may have been added,
as long as these are discreet, and whatever the objects do: what it hands over to answer a message that is for it and
that one of its services serves is made from a request that has come to its end, and the index of what is handed over is
that of the first item with an error. Only a bulk answer that was cut can have an index beyond its bindings. -/
theorem indexed_of_deeds {Obj : Type} [ManagedObject Obj] {a : Agent Obj} {added : List (Service Obj)}
    (hadded : ∀ service ∈ added, service.Discreet) (hservices : a.services = added ++ Agent.standardServices)
    {s : Schedule Obj} (hfresh : s.Fresh) (turns : Nat) (deeds : List Deed) :
    ∃ outs, (a.performAll turns deeds s).state.sent = s.state.sent ++ outs ∧ ∀ out ∈ outs, ∃ m₀ mapping,
      Deed.submit m₀ ∈ deeds ∧ a.Grants m₀ mapping ∧ out = .replyTo (Agent.limited m₀ mapping) out.pdu ∧
        (a.settings.isOwnEngine (Agent.engineOf m₀ mapping) = true → a.serviceFor? m₀.pdu.kind ≠ none →
          ∃ r, a.Concluded m₀ mapping r ∧ Reply.Indexed r m₀.version out.pdu ∧
            Reply.Fitted (m₀.limit mapping) (m₀.pdu.kind == .getBulk) (r.answer m₀.version) (some out.pdu)) := by
  obtain ⟨outs, hsent, houts⟩ := (corresponds_of_fresh hadded hservices hfresh turns deeds).exists_of_sent
  refine ⟨outs, hsent, fun out hout => ?_⟩
  obtain ⟨m₀, mapping, answer, hsubmitted, hgrants, hutters, hreply, hfitted⟩ := houts out hout
  refine ⟨m₀, mapping, hsubmitted, hgrants, hreply, fun hown hserved => ?_⟩
  cases hutters with
  | @answered r hr =>
    have hfit : Reply.Fitted (m₀.limit mapping) (r.pdu.kind == .getBulk) (r.answer m₀.version) (some out.pdu) := by
      rw [hr.kind (discreet_of_added hadded hservices)]
      exact hfitted
    exact ⟨r, hr, .fit hfit, hfitted⟩
  | unserved hservice => exact absurd hservice hserved
  | relayed hforeign => cases hforeign.symm.trans hown
  | unreturned hforeign => cases hforeign.symm.trans hown

/-- Two tables of one variable each. The second one can be neither read nor searched. -/
def quarry : State Instrument where
  objects id := .scripted
    { region := .subtree ⟨[if id.number = 0 then 1 else 2]⟩
      values := ⟨[(⟨[if id.number = 0 then 1 else 2, 0]⟩, .integer 7)]⟩
      script := fun callback =>
        if id.number = 1 ∧ (callback = .get ∨ callback = .next) then [{ fault := some ⟨none, "gone"⟩ }] else [] }
  registries := [{ entries := [⟨.subtree ⟨[1]⟩, ⟨0⟩⟩, ⟨.subtree ⟨[2]⟩, ⟨1⟩⟩] }]
  outstanding := ⟨.seconds 300, []⟩

/-- Somebody asks for something, and accepts only so many octets. -/
def curtly (maxSize : Nat) (pdu : Pdu) : Inbound :=
  { Inbound.ofUser [117] .noAuthNoPriv [] [] Set.writer.peer pdu with maxSize }

/-- Both variables are read, and the second one fails. -/
theorem indexed_of_quarry :
    let pit : Schedule Instrument := ⟨quarry, 100, [], [], [], 0, ⟨0⟩⟩
    let deeds : List Deed := [.submit (curtly 28 (.asking .get 1 [⟨[1, 0]⟩, ⟨[2, 0]⟩])), .drain]
    ((Agent.plain.performAll 100 deeds pit).state.sent.map Outbound.pdu =
      [⟨.response, 1, 5, 2, [⟨⟨[1, 0]⟩, .integer 7⟩, ⟨⟨[2, 0]⟩, .null⟩]⟩]) ∧
    pit.Fresh ∧
    ∃ outs, (Agent.plain.performAll 100 deeds pit).state.sent = quarry.sent ++ outs ∧ ∀ out ∈ outs, ∃ m₀ mapping,
      Deed.submit m₀ ∈ deeds ∧ Agent.plain.Grants m₀ mapping ∧
        out = .replyTo (Agent.limited m₀ mapping) out.pdu ∧
          (Agent.plain.settings.isOwnEngine (Agent.engineOf m₀ mapping) = true →
            Agent.plain.serviceFor? m₀.pdu.kind ≠ none →
              ∃ r, Agent.plain.Concluded m₀ mapping r ∧ Reply.Indexed r m₀.version out.pdu ∧
                Reply.Fitted (m₀.limit mapping) (m₀.pdu.kind == .getBulk) (r.answer m₀.version) (some out.pdu)) := by
  intro pit deeds
  have hfresh : pit.Fresh := ⟨rfl, by simp [pit, quarry], by simp [pit], rfl, rfl⟩
  have hadded : ∀ service ∈ ([] : List (Service Instrument)), service.Discreet := by simp
  exact ⟨by decide +kernel, hfresh, indexed_of_deeds hadded rfl hfresh 100 deeds⟩

/-- A search in bulk for the variables of both tables. The second one fails, its binding is cut off, and the index still
points to it. -/
theorem not_indexed_of_quarry :
    let pit : Schedule Instrument := ⟨quarry, 100, [], [], [], 0, ⟨0⟩⟩
    let browse := curtly 24 (.askingBulk 1 2 0 [⟨[1]⟩, ⟨[2]⟩])
    let sent := (Agent.plain.performAll 100 [.submit browse, .drain] pit).state.sent
    sent.map Outbound.pdu = [⟨.response, 1, 5, 2, [⟨⟨[1, 0]⟩, .integer 7⟩]⟩] ∧
      ¬∀ out ∈ sent, out.pdu.errorIndex.toInt ≤ out.pdu.bindings.length := by
  decide +kernel

end Responder
