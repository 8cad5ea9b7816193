import Responder.Proofs.Drive

/-! Letters: what is said to a message, and what of it is handed over where only so many octets are accepted. That is
    said without saying how it is found (`Reply.Fitted`), and what is found is of that form (`Reply.fitted_fit?`).
    However an agent comes to answer a message, it posts a letter (`Agent.Answering`): when a request is complete, when
    nobody serves its kind, when there is no view or no registry for it, and when a forwarder was asked for a
    response. -/

namespace Responder

/-! ### What fits -/

namespace Reply

/-- What is handed over of an answer where no more than `limit` octets are accepted. -/
inductive Fitted (limit : Nat) (bulk : Bool) (p : Pdu) : Option Pdu → Prop
  | whole (hfits : p.size ≤ limit) : Fitted limit bulk p (some p)
  | report (hlarge : limit < p.size) (hkind : p.kind = .report) : Fitted limit bulk p none
  /-- The longest part of the bindings that fits. -/
  | part (count : Nat) (hlarge : limit < p.size) (hkind : p.kind ≠ .report) (hbulk : bulk = true)
      (hcount : count ≤ p.bindings.length) (hfits : { p with bindings := p.bindings.take count }.size ≤ limit)
      (hlongest : ∀ more ≤ p.bindings.length, count < more → limit < { p with bindings := p.bindings.take more }.size) :
      Fitted limit bulk p (some { p with bindings := p.bindings.take count })
  | noPart (hlarge : limit < p.size) (hkind : p.kind ≠ .report) (hbulk : bulk = true)
      (hnone : limit < { p with bindings := [] }.size) : Fitted limit bulk p none
  | tooBig (hlarge : limit < p.size) (hkind : p.kind ≠ .report) (hbulk : bulk = false)
      (hfits : { p with errorStatus := Status.tooBig.code, errorIndex := 0, bindings := [] }.size ≤ limit) :
      Fitted limit bulk p (some { p with errorStatus := Status.tooBig.code, errorIndex := 0, bindings := [] })
  | nothing (hlarge : limit < p.size) (hkind : p.kind ≠ .report) (hbulk : bulk = false)
      (hnone : limit < { p with errorStatus := Status.tooBig.code, errorIndex := 0, bindings := [] }.size) :
      Fitted limit bulk p none

variable {limit count more : Nat} {bulk : Bool} {p p' : Pdu} {o : Option Pdu}

theorem Fitted.size_le (h : Fitted limit bulk p (some p')) : p'.size ≤ limit := by
  cases h <;> assumption

theorem greatest_le (test : Nat → Bool) (n : Nat) : greatest test n ≤ n := by
  induction n with
  | zero => exact le_rfl
  | succ n ih =>
    rw [greatest]
    split
    · exact le_rfl
    · exact ih.trans n.le_succ

theorem greatest_passes {test : Nat → Bool} {n : Nat} (h : greatest test n ≠ 0) : test (greatest test n) = true := by
  induction n with
  | zero => exact absurd rfl h
  | succ n ih =>
    rw [greatest] at h ⊢
    split
    · assumption
    · next hfailed =>
      rw [if_neg hfailed] at h
      exact ih h

/-- Nothing above the greatest number passes the test. -/
theorem eq_false_of_greatest_lt {test : Nat → Bool} {n : Nat} (hmore : more ≤ n) (hlt : greatest test n < more) :
    test more = false := by
  induction n with
  | zero => omega
  | succ n ih =>
    rw [greatest] at hlt
    split at hlt
    · omega
    · next hfailed =>
      rcases Nat.le_or_eq_of_le_succ hmore with hle | rfl
      · exact ih hle hlt
      · exact Bool.eq_false_iff.mpr hfailed

theorem fitted_fit? (limit : Nat) (bulk : Bool) (p : Pdu) : Fitted limit bulk p (fit? p bulk limit) := by
  unfold fit?
  split
  · next hfits => exact .whole hfits
  · next hlarge =>
    rw [Nat.not_le] at hlarge
    unfold shrink
    by_cases hkind : p.kind = .report
    · simp only [if_pos hkind, if_neg (Nat.not_le_of_lt hlarge)]
      exact .report hlarge hkind
    · cases bulk with
      | true =>
        simp only [if_neg hkind, if_true]
        generalize htest : (fun n => decide ((cut p n).size ≤ limit)) = test
        have hlongest : ∀ more ≤ p.bindings.length, greatest test p.bindings.length < more →
            limit < (cut p more).size := by
          intro more hmore hlt
          have hfailed := eq_false_of_greatest_lt hmore hlt
          rw [← htest] at hfailed
          exact Nat.lt_of_not_le (of_decide_eq_false hfailed)
        split
        · next hfits => exact .part _ hlarge hkind rfl (greatest_le _ _) hfits hlongest
        · next hnone =>
          refine .noPart hlarge hkind rfl ?_
          -- Where a part was found it fits, so none was found, and what does not fit is the empty one.
          have hzero : greatest test p.bindings.length = 0 := by
            by_contra hne
            refine hnone (of_decide_eq_true ?_)
            exact (congrFun htest _).trans (greatest_passes hne)
          rw [hzero] at hnone
          exact Nat.lt_of_not_le hnone
      | false =>
        simp only [if_neg hkind, Bool.false_eq_true, if_false]
        split
        · next hfits => exact .tooBig hlarge hkind rfl hfits
        · next hnone => exact .nothing hlarge hkind rfl (Nat.lt_of_not_le hnone)

theorem fit?_of_report (hkind : p.kind = .report) (bulk bulk' : Bool) : fit? p bulk limit = fit? p bulk' limit := by
  simp [fit?, shrink, hkind]

end Reply

/-! ### Letters -/

/-- The largest response that a message allows for, lowered to what its community stands for. -/
def Inbound.limit (m : Inbound) (mapping : Option Mapping) : Nat :=
  match mapping.bind Mapping.maxSize with
  | some maxSize => min m.maxSize maxSize
  | none => m.maxSize

/-- An answer to a message, whose community stands for something or nothing, and what is handed over of it. -/
structure Letter where
  message : Inbound
  mapping : Option Mapping
  answer : Pdu
  posted : Option Pdu
  fitted : Reply.Fitted (message.limit mapping) (message.pdu.kind == .getBulk) answer posted

namespace Letter

/-- The letter that says something in answer to a message. -/
def of (message : Inbound) (mapping : Option Mapping) (answer : Pdu) : Letter where
  message
  mapping
  answer
  posted := Reply.fit? answer (message.pdu.kind == .getBulk) (message.limit mapping)
  fitted := Reply.fitted_fit? _ _ _

/-- What leaves of a letter. -/
def outs (l : Letter) : Outlet → List Outbound
  | .open => (l.posted.map (Outbound.replyTo (Agent.limited l.message l.mapping))).toList
  | .closed => []

/-- How the handing over of a letter ends. Where nobody receives it, it fails. -/
def result (l : Letter) : Outlet → Except Error Unit
  | .open => .ok ()
  | .closed => if l.posted = none then .ok () else .error .undelivered

/-- How much the letter adds to the count of those that were dropped. -/
def drops (l : Letter) : Nat := if l.posted = none then 1 else 0

end Letter

variable {Obj : Type}

/-- Nothing has been handed over, and nothing was dropped. -/
structure State.Quiet (s t : State Obj) : Prop where
  sent : t.sent = s.sent
  drops : t.counters.silentDrops = s.counters.silentDrops

/-- A letter has been handed over, as far as it fits, or it was dropped and counted. -/
structure Agent.Posts (a : Agent Obj) (l : Letter) (s : State Obj) (result : Except Error Unit) (t : State Obj) :
    Prop where
  result : result = l.result a.outlet
  sent : t.sent = s.sent ++ l.outs a.outlet
  drops : t.counters.silentDrops = s.counters.silentDrops + UInt32.ofNat l.drops

/-- What is said in the end to somebody who made a request. -/
def Request.answer (r : Request) (version : Version) : Pdu :=
  if version = .v1 then Reply.forV1 r.toResponse else r.toResponse

theorem Request.kind_answer (r : Request) (version : Version) : (r.answer version).kind = .response := by
  have hkind : r.toResponse.kind = .response := by
    unfold Request.toResponse Request.responseHeader
    split <;> rfl
  unfold Request.answer
  split
  · unfold Reply.forV1
    split <;> exact hkind
  · exact hkind

section Quiet
variable {s t u : State Obj}

theorem State.Quiet.trans (h : s.Quiet t) (h' : t.Quiet u) : s.Quiet u := ⟨h'.sent.trans h.sent, h'.drops.trans h.drops⟩

theorem State.quiet_of_bare (h : t.bare = s.bare) : s.Quiet t :=
  ⟨congrArg (·.sent) h, congrArg (fun u => u.counters.silentDrops) h⟩

theorem State.quiet_count (s : State Obj) {counter : Counter} (h : counter ≠ .silentDrops) :
    s.Quiet (s.count counter).2 := by
  refine ⟨rfl, ?_⟩
  cases counter with
  | silentDrops => exact absurd rfl h
  | _ => rfl

theorem State.quiet_releaseLocks (s : State Obj) (registry : Nat) (owner : TransactionId) :
    s.Quiet (s.releaseLocks registry owner).2 := quiet_of_bare (s.bare_releaseLocks registry owner)

theorem Agent.quiet_drop (registry : Nat) (id : TransactionId) (s : State Obj) : s.Quiet (drop registry id s) :=
  (s.quiet_releaseLocks registry id).trans ⟨rfl, rfl⟩

theorem Agent.quiet_park (p : Pending) (s : State Obj) : s.Quiet (park p s) := by
  unfold park
  split
  · exact ⟨rfl, rfl⟩
  · exact s.quiet_releaseLocks _ _

theorem Agent.Posts.of_quiet {a : Agent Obj} {l : Letter} {result : Except Error Unit} (h : a.Posts l t result u)
    (hquiet : s.Quiet t) : a.Posts l s result u := by
  refine ⟨h.result, ?_, ?_⟩
  · rw [h.sent, hquiet.sent]
  · rw [h.drops, hquiet.drops]

end Quiet

/-! ### Posting -/

namespace Agent

variable (a : Agent Obj) (m₀ : Inbound) (mapping : Option Mapping) (s : State Obj)

theorem limited_eq : limited m₀ mapping = { m₀ with maxSize := m₀.limit mapping } := by
  unfold limited Inbound.limit
  cases mapping.bind Mapping.maxSize <;> rfl

theorem posts_send (answer : Pdu) :
    a.Posts (.of m₀ mapping answer) s (a.send (limited m₀ mapping) answer (m₀.pdu.kind == .getBulk) s).1
      (a.send (limited m₀ mapping) answer (m₀.pdu.kind == .getBulk) s).2 := by
  have hposted : (Letter.of m₀ mapping answer).posted =
      Reply.fit? answer (m₀.pdu.kind == .getBulk) (limited m₀ mapping).maxSize := by
    rw [limited_eq]
    rfl
  unfold send
  cases hfit : Reply.fit? answer (m₀.pdu.kind == .getBulk) (limited m₀ mapping).maxSize with
  | none =>
    rw [hfit] at hposted
    refine ⟨?_, ?_, ?_⟩
    · cases hout : a.outlet <;> simp [Letter.result, hposted]
    · cases hout : a.outlet <;> simp [Letter.outs, hposted, State.count]
    · simp only [Letter.drops, hposted, if_true]
      rfl
  | some pdu =>
    rw [hfit] at hposted
    cases hout : a.outlet with
    | «open» =>
      refine ⟨by rw [hout]; rfl, ?_, by simp [Letter.drops, hposted]⟩
      simp only [hout, Letter.outs, hposted, Option.map_some, Option.toList_some]
      rfl
    | closed =>
      exact ⟨by simp [hout, Letter.result, hposted], by simp [hout, Letter.outs], by simp [Letter.drops, hposted]⟩

/-- An answer to any but a bulk request is made to fit as such, and so is every report. -/
theorem posts_send_plain {answer : Pdu} (hplain : m₀.pdu.kind ≠ .getBulk ∨ answer.kind = .report) :
    a.Posts (.of m₀ mapping answer) s (a.send (limited m₀ mapping) answer false s).1
      (a.send (limited m₀ mapping) answer false s).2 := by
  have hsame : a.send (limited m₀ mapping) answer false s =
      a.send (limited m₀ mapping) answer (m₀.pdu.kind == .getBulk) s := by
    rcases hplain with hkind | hkind
    · rw [beq_false_of_ne hkind]
    · rw [send, send, Reply.fit?_of_report hkind false (m₀.pdu.kind == .getBulk)]
  rw [hsame]
  exact a.posts_send m₀ mapping s answer

theorem posts_finish {r : Request} (hkind : r.pdu.kind = m₀.pdu.kind) (registry : Option Nat) :
    a.Posts (.of m₀ mapping (r.answer m₀.version)) s (a.finish r (limited m₀ mapping) registry s).1
      (a.finish r (limited m₀ mapping) registry s).2 := by
  let removed : State Obj := { s with outstanding := s.outstanding.remove r.transaction }
  have hremoved : s.Quiet removed := ⟨rfl, rfl⟩
  have hanswer : (if (limited m₀ mapping).version = .v1 then Reply.forV1 r.toResponse else r.toResponse) =
      r.answer m₀.version := by
    rw [limited_eq]
    rfl
  unfold finish
  dsimp only
  rw [hanswer, hkind]
  cases registry with
  | none => exact (a.posts_send m₀ mapping removed _).of_quiet hremoved
  | some registry =>
    exact (a.posts_send m₀ mapping _ _).of_quiet (hremoved.trans (removed.quiet_releaseLocks registry _))

end Agent
end Responder
