import Responder.Proofs.Oid.Dotted
import Responder.Written.Error

/-! Identifiers that are written and read. The components of what is written are the arcs in digits (`components_text`),
    so that it reads back as the identifier that it was written for, if that is short enough (`parse_text`), and
    different identifiers are written differently. -/

namespace Responder.Oid

variable {o o' : Oid} {s : String}

theorem spells_digits (arc : UInt32) : Spells (Decimal.digits arc.toNat) arc := by
  refine ⟨_, Or.inl rfl, numeral_iff.mpr ⟨⟨Decimal.digits_ne_nil _, ?_, ?_⟩, ?_⟩⟩
  · exact List.all_eq_true.mpr fun c hc => Decimal.isDigit_of_mem_digits hc
  · have hlt := arc.toNat_lt
    rw [Decimal.value_digits, show maxArc.toNat = 4294967295 from rfl]
    omega
  · rw [Decimal.value_digits, UInt32.ofNat_toNat]

theorem dot_not_mem_digits (n : Nat) : '.' ∉ Decimal.digits n := fun hmem =>
  absurd (Decimal.isDigit_of_mem_digits hmem) (by decide)

/-- The arcs are found again between the dots. -/
theorem components_text (o : Oid) : components o.text.toList = o.arcs.map fun arc => Decimal.digits arc.toNat := by
  have htext : o.text.toList = ['.'].intercalate (o.arcs.map fun arc => Decimal.digits arc.toNat) := by
    simp [text, Decimal.text, Function.comp_def]
  rw [htext]
  by_cases hnone : o.arcs = []
  · simp [hnone, components, Text.split]
  · rw [components, Text.split_intercalate (by simpa using hnone) (by simp [dot_not_mem_digits]), List.filter_eq_self]
    simp [Decimal.digits_ne_nil]

theorem spelt_text (o : Oid) : List.Forall₂ Spells (components o.text.toList) o.arcs := by
  rw [components_text, List.forall₂_map_left_iff, List.forall₂_same]
  exact fun arc _ => spells_digits arc

/-- What is written reads back, if it is not too long. -/
theorem parse_text (o : Oid) : parse o.text = if o.size ≤ 128 then .ok o else .error (.tooManyArcs o.size) :=
  parse_of_spelt (spelt_text o)

theorem text_injective : Function.Injective text := fun o o' h => by
  have hspelt := spelt_text o'
  rw [← h] at hspelt
  exact congrArg Oid.mk (forall₂_spells_unique hspelt (spelt_text o))

theorem size_of_parse (h : parse s = .ok o) : o.size ≤ 128 := by
  obtain ⟨hspelt, hle⟩ := parse_eq_ok_iff.mp h
  exact hspelt.length_eq.ge.trans hle

/-- An identifier of up to 128 arcs reads back from its text, and one of more is refused with the number of its arcs and
this limit. So no two identifiers have one text, and an identifier that was read from any text reads back from its
own. -/
theorem reads_back (o : Oid) :
    (o.size ≤ 128 → parse o.text = .ok o) ∧
    (128 < o.size → parse o.text = .error (.tooManyArcs o.size) ∧
      (OidError.tooManyArcs o.size).toDocument.member "kind" =
        .list [.text "TooManyArcs", .natural o.size, .natural 128]) ∧
    (∀ o', o'.text = o.text → o' = o) ∧
    ∀ s, parse s = .ok o → parse o.text = .ok o := by
  have hshort (hle : o.size ≤ 128) : parse o.text = .ok o := (parse_text o).trans (if_pos hle)
  exact ⟨hshort, fun hmany => ⟨(parse_text o).trans (if_neg (not_le_of_gt hmany)), rfl⟩, fun o' h => text_injective h,
    fun s h => hshort (size_of_parse h)⟩

end Responder.Oid
