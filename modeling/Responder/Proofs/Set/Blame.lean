import Responder.Proofs.Set.Effect

/-! What errors tell. Something fails while a request is prepared or committed just if the request has an error
    by then (`Blamed`), whatever its objects do to its items. -/

namespace Responder.Set

/-- Something failed while it was prepared or committed. -/
def Broken (h : List Step) : Prop := ∃ st ∈ h, (st.callback = .prepare ∨ st.callback = .commit) ∧ st.failed = true

/-- Up to the end of the commits a request has an error just if something failed, and it is undone only then. -/
structure Blamed (r : Request) (h : List Step) : Prop where
  error : r.phase ≠ .undo → r.phase ≠ .cleanup → (r.hasError = true ↔ Broken h)
  undo : r.phase = .undo → Broken h

section Blamed
variable {r r' : Request} {h : List Step} {done rest : List Item} {item item' : Item} {st : Step}

theorem callback_eq_prepare {phase : Phase} : phase.callback = .prepare ↔ phase = .prepare := by
  cases phase <;> decide

theorem callback_eq_cleanup {phase : Phase} : phase.callback = .cleanup ↔ phase = .cleanup := by
  cases phase <;> decide

theorem broken_append : Broken (h ++ [st]) ↔
    Broken h ∨ (st.callback = .prepare ∨ st.callback = .commit) ∧ st.failed = true := by
  simp only [Broken, List.mem_append, List.mem_singleton, or_and_right, exists_or, exists_eq_left]

theorem Broken.append (hb : Broken h) (st : Step) : Broken (h ++ [st]) := broken_append.mpr (Or.inl hb)

theorem Blamed.step (hr : Blamed r h) (hitems : r.items = done ++ item :: rest)
    (hclear : r.phase = .prepare ∨ r.phase = .commit → r.hasError = false) (e : Effect r.phase item item' st) :
    Blamed { r with items := done ++ item' :: rest } (h ++ [st]) := by
  refine ⟨fun hundo hcleanup => ?_, fun hphase => (hr.undo hphase).append st⟩
  have hearly : r.phase = .prepare ∨ r.phase = .commit := by
    cases hphase : r.phase <;> simp [hphase] at hundo hcleanup ⊢ <;> exact e.active (by rw [hphase]; rfl)
  have hb := hr.error hundo hcleanup
  rw [hclear hearly] at hb
  have hc : st.callback = .prepare ∨ st.callback = .commit := by
    rw [e.callback]
    rcases hearly with hphase | hphase <;> simp [hphase, Phase.callback]
  rw [hasError_replace hitems (hclear hearly), e.error hearly, broken_append]
  simpa [hc] using fun hbroken => absurd (hb.mpr hbroken) (by simp)

theorem Blamed.relabel (hr : Blamed r h) (hphase : r'.phase = r.phase) (herror : r'.hasError = r.hasError) :
    Blamed r' h where
  error := by
    rw [hphase, herror]
    exact hr.error
  undo := hphase ▸ hr.undo

theorem hasError_silent (hitems : r.items = done ++ item :: rest) (hs : Silent r.phase item item') :
    { r with items := done ++ item' :: rest }.hasError = r.hasError := by
  have he : item'.hasError = item.hasError := by
    generalize r.phase = phase at hs
    cases hs <;> rfl
  simp [Request.hasError, hitems, he]

variable {Obj : Type} [ManagedObject Obj] {S : Scene Obj} {m m' : Moment Obj}

omit [ManagedObject Obj] in
theorem Blamed.advance (hr : Blamed r h) (w : Writes S r) (hnext : r.advance? = some r') : Blamed r' h := by
  obtain ⟨phase, hfollow, rfl⟩ := advance?_eq hnext
  have hbroken (hphase : r.phase = .prepare ∨ r.phase = .commit) (hfailed : r.hasError = true) : Broken h := by
    refine (hr.error ?_ ?_).mp hfailed <;> rcases hphase with hp | hp <;> simp [hp]
  refine ⟨fun hundo hcleanup => ?_, fun hundo => ?_⟩
  · rw [hasError_restart]
    cases w.onward hfollow with
    | begin hphase | commit hphase => exact hr.error (by simp [hphase]) (by simp [hphase])
    | rollBack | takeBack => exact absurd rfl hundo
    | drop | conclude | wind => exact absurd rfl hcleanup
  · obtain rfl : phase = .undo := hundo
    cases w.onward hfollow with
    | rollBack hphase hfailed => exact hbroken (Or.inl hphase) hfailed
    | takeBack hphase hfailed => exact hbroken (Or.inr hphase) hfailed

/-- The steps so far of the request that is served. -/
def Moment.past (S : Scene Obj) (m : Moment Obj) : List Step := m.state.history S.who.transaction

/-- A turn adds no step to the history or one. -/
theorem Turn.past (hS : Discreet S) (hturn : Turn S m m') :
    m'.past S = m.past S ∨ ∃ st, m'.past S = m.past S ++ [st] := by
  cases hturn with
  | serve hpass hopen hclear hserved =>
    have hrested := hpass.rested _ (hpass.items ▸ List.mem_append_right _ List.mem_cons_self)
    rcases hserved.effect hS hrested with ⟨hsame, -⟩ | ⟨st, hst, -⟩
    · exact Or.inl hsame
    · exact Or.inr ⟨st, hst⟩
  | wait hphase hwait => exact Or.inl ((Activity.ensures_iff.mp (hS.look _ _)).1 _ hwait)
  | giveUp | advance => exact Or.inl rfl
  | retry hr hrely => exact Or.inl (hS _ _ hrely)

/-- A turn keeps what errors tell. -/
theorem Turn.blamed (hS : Discreet S) (hturn : Turn S m m') (w : Writes S m.request)
    (hm : Blamed m.request (m.past S)) : Blamed m'.request (m'.past S) := by
  unfold Moment.past at hm ⊢
  cases hturn with
  | @serve r error later s t done rest item item' hpass hopen hclear hserved =>
    have hrested := hpass.rested item (hpass.items ▸ List.mem_append_right _ List.mem_cons_self)
    dsimp only at hm ⊢
    rcases hserved.effect hS hrested with ⟨hsame, hsilent⟩ | ⟨st, hst, heffect⟩
    · rw [hsame]
      exact hm.relabel rfl (hasError_silent hpass.items hsilent)
    · rw [hst]
      exact hm.step hpass.items hclear heffect
  | wait hphase hwait =>
    dsimp only at hm ⊢
    rw [(Activity.ensures_iff.mp (hS.look _ _)).1 _ hwait]
    exact hm
  | giveUp hgive => exact hm.relabel rfl (hasError_finishAll _)
  | advance hover hr => exact hm.advance w hr
  | retry hr hrely =>
    dsimp only at hm ⊢
    rw [hS _ _ hrely]
    exact hm.relabel rfl (hasError_retry _)

/-! ### The start of a request -/

theorem blamed_start (pdu : Pdu) (who : Requester) (maxSize : Nat) (created : Instant) :
    Blamed (.start who pdu maxSize created) [] := by
  refine ⟨fun _ _ => ?_, by simp [Request.start]⟩
  have herror : (Request.start who pdu maxSize created).hasError = false := hasError_start
  simp [herror, Broken]

end Blamed
end Responder.Set
