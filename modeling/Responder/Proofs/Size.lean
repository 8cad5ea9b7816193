import Mathlib.Order.Monotone.Basic
import Responder.Message.Reply
import Responder.Proofs.Items

/-! Sizes of responses. Every further binding makes a response larger (`size_lt_of_isPrefix`), so of a bulk
    response that is too large as many bindings are left as fit, and no other ones (`fit?_of_cut`). -/

namespace Responder

/-! ### Elements -/

namespace Ber

theorem lengthSize_mono {m n : Nat} (h : m ≤ n) : lengthSize m ≤ lengthSize n := by
  unfold lengthSize
  split_ifs <;> omega

theorem elementSize_strictMono : StrictMono elementSize := by
  intro m n h
  have hlength := lengthSize_mono h.le
  unfold elementSize
  omega

end Ber

namespace Binding

theorem size_pos (b : Binding) : 0 < b.size := by
  unfold size Ber.elementSize
  omega

theorem totalSize_append (bs cs : List Binding) : totalSize (bs ++ cs) = totalSize bs + totalSize cs := by
  induction bs with
  | nil => exact (Nat.zero_add _).symm
  | cons b bs ih =>
    show b.size + totalSize (bs ++ cs) = b.size + totalSize bs + totalSize cs
    rw [ih, Nat.add_assoc]

theorem totalSize_lt_of_isPrefix {bs cs : List Binding} (h : bs <+: cs) (hlt : bs.length < cs.length) :
    totalSize bs < totalSize cs := by
  obtain ⟨ds, rfl⟩ := h
  rw [totalSize_append]
  cases ds with
  | nil => simp at hlt
  | cons d ds =>
    have hpos := d.size_pos
    show _ < totalSize bs + (d.size + totalSize ds)
    omega

end Binding

/-! ### Responses -/

namespace Pdu

variable {p : Pdu} {bs cs : List Binding}

/-- The response to a request, with some bindings. -/
def answer (p : Pdu) (bs : List Binding) : Pdu := { p.toResponse with bindings := bs }

theorem size_lt_of_isPrefix (h : bs <+: cs) (hlt : bs.length < cs.length) :
    (p.answer bs).size < (p.answer cs).size := by
  have hlist := Ber.elementSize_strictMono (Binding.totalSize_lt_of_isPrefix h hlt)
  exact Ber.elementSize_strictMono (Nat.add_lt_add_left hlist _)

theorem size_le_of_isPrefix (h : bs <+: cs) : (p.answer bs).size ≤ (p.answer cs).size := by
  rcases Nat.lt_or_ge bs.length cs.length with hlt | hge
  · exact (size_lt_of_isPrefix h hlt).le
  · rw [h.eq_of_length_le hge]

end Pdu

theorem responseSize_of_clear {r : Request} (hr : r.hasError = false) :
    r.responseSize = (r.pdu.answer (r.items.map Item.binding)).size := by
  show r.toResponse.size = _
  rw [toResponse_of_clear hr]
  rfl

/-! ### What fits -/

namespace Reply

theorem greatest_eq {test : Nat → Bool} {k n : Nat} (hle : k ≤ n) (htest : test k = true)
    (habove : ∀ i, k < i → test i = false) : greatest test n = k := by
  induction n with
  | zero => exact (Nat.le_zero.mp hle).symm
  | succ n ih =>
    rw [greatest]
    rcases Nat.lt_or_eq_of_le hle with hlt | rfl
    · rw [habove (n + 1) hlt, if_neg Bool.false_ne_true]
      exact ih (Nat.le_of_lt_succ hlt)
    · rw [htest, if_pos rfl]

variable {p : Pdu} {bs cs : List Binding} {b : Binding} {maxSize : Nat}

/-- Of a bulk response that is too large the bindings are left that fit, up to the first one that does not. -/
theorem fit?_of_cut (h : (p.answer bs).size ≤ maxSize) (hb : maxSize < (p.answer (bs ++ [b])).size) :
    fit? (p.answer (bs ++ b :: cs)) true maxSize = some (p.answer bs) := by
  have hcut (n : Nat) : cut (p.answer (bs ++ b :: cs)) n = p.answer ((bs ++ b :: cs).take n) := rfl
  have hlarge (ds : List Binding) (hds : bs ++ [b] <+: ds) : maxSize < (p.answer ds).size :=
    lt_of_lt_of_le hb (Pdu.size_le_of_isPrefix hds)
  have hfront : bs ++ [b] <+: bs ++ b :: cs := ⟨cs, by simp⟩
  have hgreatest : greatest (fun n => (cut (p.answer (bs ++ b :: cs)) n).size ≤ maxSize) (bs ++ b :: cs).length =
      bs.length := by
    refine greatest_eq (by simp) ?_ fun i hi => ?_
    · rw [hcut, List.take_left]
      exact decide_eq_true h
    · rw [hcut]
      refine decide_eq_false (Nat.not_le_of_lt (hlarge _ ?_))
      exact List.prefix_of_prefix_length_le hfront ⟨_, List.take_append_drop i _⟩ (by simp; omega)
  have hshrunk : shrink (p.answer (bs ++ b :: cs)) true maxSize = p.answer bs := by
    have hkind : (p.answer (bs ++ b :: cs)).kind ≠ .report := by
      rintro ⟨⟩
    rw [shrink, if_neg hkind, if_pos rfl]
    show cut _ (greatest (fun n => (cut (p.answer (bs ++ b :: cs)) n).size ≤ maxSize) (bs ++ b :: cs).length) = _
    rw [hgreatest, hcut, List.take_left]
  rw [fit?, if_neg (Nat.not_le_of_lt (hlarge _ hfront)), hshrunk]
  exact if_pos h

end Reply
end Responder
