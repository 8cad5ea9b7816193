import Mathlib.Data.List.Forall2
import Mathlib.Data.List.Induction
import Mathlib.Data.Nat.Digits.Defs
import Responder.Oid.Text

/-! What is read from a text. A text has its components in one way: what stands between its dots, where that is not
    empty (`dotted_iff`). A component is an arc if it is in digits, with at most a plus sign before them, that are worth
    no more than an arc can be (`readArc?_eq_some_iff`). From these two it can be told of any text which identifier it
    is, or why it is none (`parse_decides`). -/

namespace Responder

/-- A number in digits is worth what these say in base ten, the last one first. -/
theorem Decimal.value_eq_ofDigits (ds : List Char) :
    Decimal.value ds = Nat.ofDigits 10 (ds.reverse.map fun c => c.toNat - '0'.toNat) := by
  induction ds using List.reverseRecOn with
  | nil => rfl
  | append_singleton ds c ih =>
    rw [Decimal.value] at ih ⊢
    rw [List.foldl_append, ih, List.reverse_append, List.reverse_singleton, List.singleton_append, List.map_cons,
      Nat.ofDigits_cons]
    exact Nat.add_comm _ _

namespace Oid

/-! ### Arcs -/

/-- Decimal digits that are worth an arc. Zeros may stand before the others. -/
structure Numeral (ds : List Char) (arc : UInt32) : Prop where
  some_digit : ds ≠ []
  digits : ∀ c ∈ ds, '0' ≤ c ∧ c ≤ '9'
  worth : Nat.ofDigits 10 (ds.reverse.map fun c => c.toNat - '0'.toNat) = arc.toNat

/-- A component that stands for an arc: a numeral, before which a plus sign may stand. -/
def Spells (cs : List Char) (arc : UInt32) : Prop := ∃ ds, (cs = ds ∨ cs = '+' :: ds) ∧ Numeral ds arc

variable {cs ds part : List Char} {parts : List (List Char)} {arc : UInt32} {arcs : List UInt32} {s : String}

theorem Numeral.plus_not_mem (h : Numeral ds arc) : '+' ∉ ds := fun hmem => absurd (h.digits _ hmem) (by decide)

theorem Numeral.dot_not_mem (h : Numeral ds arc) : '.' ∉ ds := fun hmem => absurd (h.digits _ hmem) (by decide)

theorem unsigned_of_not_mem (h : '+' ∉ ds) : unsigned ds = ds := by
  unfold unsigned
  split
  · simp at h
  · rfl

theorem numeral_iff : Numeral ds arc ↔
    (ds ≠ [] ∧ ds.all Decimal.isDigit ∧ Decimal.value ds ≤ maxArc.toNat) ∧ UInt32.ofNat (Decimal.value ds) = arc := by
  have hdigits : ds.all Decimal.isDigit = true ↔ ∀ c ∈ ds, '0' ≤ c ∧ c ≤ '9' := by
    simp [Decimal.isDigit]
  rw [hdigits, Decimal.value_eq_ofDigits]
  constructor
  · rintro ⟨hsome, hall, hworth⟩
    refine ⟨⟨hsome, hall, ?_⟩, ?_⟩
    · have hlt := arc.toNat_lt
      rw [hworth, show maxArc.toNat = 4294967295 from rfl]
      omega
    · rw [hworth, UInt32.ofNat_toNat]
  · rintro ⟨⟨hsome, hall, hle⟩, rfl⟩
    refine ⟨hsome, hall, (UInt32.toNat_ofNat_of_lt' ?_).symm⟩
    rw [show maxArc.toNat = 4294967295 from rfl] at hle
    exact Nat.lt_of_le_of_lt hle (by decide)

/-- An arc is read from a component just if that stands for it. -/
theorem readArc?_eq_some_iff : readArc? cs = some arc ↔ Spells cs arc := by
  have hread : readArc? cs = some arc ↔ Numeral (unsigned cs) arc := by
    rw [readArc?, Option.ite_none_right_eq_some, Option.some.injEq, numeral_iff]
  rw [hread]
  constructor
  · intro h
    refine ⟨unsigned cs, ?_, h⟩
    unfold unsigned
    split
    · exact Or.inr rfl
    · exact Or.inl rfl
  · rintro ⟨ds, rfl | rfl, h⟩
    · rwa [unsigned_of_not_mem h.plus_not_mem]
    · exact h

theorem readArc?_eq_none_iff : readArc? cs = none ↔ ∀ arc, ¬Spells cs arc := by
  simp only [Option.eq_none_iff_forall_ne_some, ne_eq, readArc?_eq_some_iff]

/-! ### Components -/

/-- A text with its components: what stands between dots, where that is not empty. -/
inductive Dotted : List Char → List (List Char) → Prop
  | nil : Dotted [] []
  | dot {cs : List Char} {parts : List (List Char)} (rest : Dotted cs parts) : Dotted ('.' :: cs) parts
  | part {part cs : List Char} {parts : List (List Char)} (some_char : part ≠ []) (no_dot : '.' ∉ part)
      (ends : ∀ c ∈ cs.head?, c = '.') (rest : Dotted cs parts) : Dotted (part ++ cs) (part :: parts)

/-- The pieces between dots that are not empty. -/
def components (cs : List Char) : List (List Char) := (Text.split '.' cs).filter (· ≠ [])

theorem components_dot (cs : List Char) : components ('.' :: cs) = components cs := by simp [components, Text.split]

theorem components_part (hne : part ≠ []) (hdot : '.' ∉ part) (hends : ∀ c ∈ cs.head?, c = '.') :
    components (part ++ cs) = part :: components cs := by
  cases cs with
  | nil => simp [components, Text.split_of_not_mem hdot, hne, Text.split]
  | cons c rest =>
    obtain rfl := hends c rfl
    rw [components_dot]
    simp [components, Text.split_append hdot, hne]

/-- A character before a text belongs to its first component, or is one by itself. -/
theorem Dotted.exists_cons {c : Char} (hc : c ≠ '.') (h : Dotted cs parts) : ∃ parts', Dotted (c :: cs) parts' := by
  have hdot : '.' ∉ [c] := by simpa using hc.symm
  cases h with
  | nil => exact ⟨_, .part (List.cons_ne_nil c []) hdot (by simp) .nil⟩
  | dot rest => exact ⟨_, .part (List.cons_ne_nil c []) hdot (by simp) rest.dot⟩
  | @part part _ _ _ hdot' hends rest =>
    exact ⟨_, .part (List.cons_ne_nil c part) (List.not_mem_cons_of_ne_of_not_mem hc.symm hdot') hends rest⟩

theorem exists_dotted (cs : List Char) : ∃ parts, Dotted cs parts := by
  induction cs with
  | nil => exact ⟨[], .nil⟩
  | cons c rest ih =>
    obtain ⟨parts, hparts⟩ := ih
    by_cases hc : c = '.'
    · exact ⟨parts, hc ▸ hparts.dot⟩
    · exact hparts.exists_cons hc

/-- A text has its components in one way. -/
theorem dotted_iff : Dotted cs parts ↔ parts = components cs := by
  have honly {parts : List (List Char)} (h : Dotted cs parts) : parts = components cs := by
    induction h with
    | nil => rfl
    | dot _ ih => rw [components_dot, ih]
    | part hne hdot hends _ ih => rw [components_part hne hdot hends, ih]
  obtain ⟨parts', h⟩ := exists_dotted cs
  exact ⟨honly, fun heq => heq ▸ honly h ▸ h⟩

/-! ### Identifiers -/

section Option
variable {α β : Type} {f : α → Option β}

theorem mapM_eq_some_iff {l : List α} {bs : List β} :
    l.mapM f = some bs ↔ List.Forall₂ (fun a b => f a = some b) l bs := by
  induction l generalizing bs with
  | nil => simp [eq_comm]
  | cons a l ih =>
    rw [List.mapM_cons, List.forall₂_cons_left_iff]
    simp only [Option.bind_eq_bind, Option.bind_eq_some_iff, Option.pure_def, Option.some.injEq, ih]
    exact ⟨fun ⟨b, hb, bs, hbs, heq⟩ => ⟨b, bs, hb, hbs, heq.symm⟩,
      fun ⟨b, bs, hb, hbs, heq⟩ => ⟨b, hb, bs, hbs, heq.symm⟩⟩

theorem mapM_eq_none_iff {l : List α} : l.mapM f = none ↔ ∃ a ∈ l, f a = none := by
  induction l with
  | nil => simp
  | cons a l ih =>
    rw [List.mapM_cons]
    cases ha : f a with
    | none => simp [ha]
    | some b => cases hl : l.mapM f <;> simp [ha, ← ih, hl]

end Option

theorem mapM_readArc?_eq_some_iff : parts.mapM readArc? = some arcs ↔ List.Forall₂ Spells parts arcs := by
  simp only [mapM_eq_some_iff, readArc?_eq_some_iff]

theorem mapM_readArc?_eq_none_iff : parts.mapM readArc? = none ↔ ∃ part ∈ parts, ∀ arc, ¬Spells part arc := by
  simp only [mapM_eq_none_iff, readArc?_eq_none_iff]

theorem forall₂_spells_unique {arcs' : List UInt32} (h : List.Forall₂ Spells parts arcs)
    (h' : List.Forall₂ Spells parts arcs') : arcs' = arcs := by
  rw [← mapM_readArc?_eq_some_iff] at h h'
  exact Option.some.inj (h'.symm.trans h)

/-- Either one component stands for no arc, or each stands for one. -/
theorem misspelt_or_spelt (parts : List (List Char)) :
    (∃ part ∈ parts, ∀ arc, ¬Spells part arc) ∨
      (∀ part ∈ parts, ∃ arc, Spells part arc) ∧ ∃ arcs, List.Forall₂ Spells parts arcs := by
  by_cases h : ∃ part ∈ parts, ∀ arc, ¬Spells part arc
  · exact Or.inl h
  · obtain ⟨arcs, harcs⟩ := Option.ne_none_iff_exists'.mp (mt mapM_readArc?_eq_none_iff.mp h)
    exact Or.inr ⟨by simpa using h, arcs, mapM_readArc?_eq_some_iff.mp harcs⟩

theorem not_spelt_of_misspelt (h : ∃ part ∈ parts, ∀ arc, ¬Spells part arc) :
    ¬List.Forall₂ Spells parts arcs := fun h' => by
  rw [← mapM_readArc?_eq_some_iff, mapM_readArc?_eq_none_iff.mpr h] at h'
  cases h'

/-- A text is given back if one of its components stands for no arc. -/
theorem parse_of_misspelt (h : ∃ part ∈ components s.toList, ∀ arc, ¬Spells part arc) :
    parse s = .error (.invalidArc s) := by
  have hnone : ((Text.split '.' s.toList).filter (· ≠ [])).mapM readArc? = none := mapM_readArc?_eq_none_iff.mpr h
  rw [parse, hnone]

/-- If each component stands for an arc, all that matters is how many they are. -/
theorem parse_of_spelt (h : List.Forall₂ Spells (components s.toList) arcs) :
    parse s = if arcs.length ≤ 128 then .ok ⟨arcs⟩ else .error (.tooManyArcs arcs.length) := by
  have hsome : ((Text.split '.' s.toList).filter (· ≠ [])).mapM readArc? = some arcs := mapM_readArc?_eq_some_iff.mpr h
  rw [parse, hsome]
  by_cases hle : arcs.length ≤ 128 <;> simp [checkLength, isShort, size, maxArcs, hle]

theorem parse_eq_ok_iff {o : Oid} :
    parse s = .ok o ↔ List.Forall₂ Spells (components s.toList) o.arcs ∧ (components s.toList).length ≤ 128 := by
  rcases misspelt_or_spelt (components s.toList) with hbad | ⟨-, arcs, hspelt⟩
  · simp [parse_of_misspelt hbad, not_spelt_of_misspelt hbad]
  · rw [parse_of_spelt hspelt, hspelt.length_eq]
    split
    · next hle =>
      rw [Except.ok.injEq]
      exact ⟨fun heq => heq ▸ ⟨hspelt, hle⟩, fun ⟨h, _⟩ => congrArg Oid.mk (forall₂_spells_unique h hspelt)⟩
    · next hmany => exact ⟨nofun, fun ⟨_, hle⟩ => absurd hle hmany⟩

theorem parse_eq_tooManyArcs_iff {n : Nat} : parse s = .error (.tooManyArcs n) ↔
    (∀ part ∈ components s.toList, ∃ arc, Spells part arc) ∧ n = (components s.toList).length ∧
      128 < (components s.toList).length := by
  rcases misspelt_or_spelt (components s.toList) with hbad | ⟨hall, arcs, hspelt⟩
  · obtain ⟨part, hmem, hpart⟩ := hbad
    rw [parse_of_misspelt ⟨part, hmem, hpart⟩]
    exact ⟨nofun, fun ⟨hall, _⟩ => ((hall part hmem).elim hpart).elim⟩
  · rw [parse_of_spelt hspelt, hspelt.length_eq]
    split
    · next hle => exact ⟨nofun, fun ⟨_, _, hlt⟩ => absurd hle (not_le_of_gt hlt)⟩
    · next hmany =>
      simp only [Except.error.injEq, OidError.tooManyArcs.injEq]
      exact ⟨fun heq => ⟨hall, heq.symm, not_le.mp hmany⟩, fun ⟨_, heq, _⟩ => heq.symm⟩

theorem parse_eq_invalidArc_iff {t : String} : parse s = .error (.invalidArc t) ↔
    t = s ∧ ∃ part ∈ components s.toList, ∀ arc, ¬Spells part arc := by
  rcases misspelt_or_spelt (components s.toList) with hbad | ⟨-, arcs, hspelt⟩
  · simp [parse_of_misspelt hbad, hbad, eq_comm]
  · rw [parse_of_spelt hspelt]
    refine ⟨fun h => ?_, fun ⟨_, hbad⟩ => absurd hspelt (not_spelt_of_misspelt hbad)⟩
    split at h <;> cases h

/-- What is read from a text, by its components. If each stands for an arc and there are no more than 128 of them, it is
the identifier of these arcs; if each does and there are more, they are too many, and counted; and otherwise there is
one that stands for no arc, for which the text is given back. -/
theorem parse_decides (s : String) : ∃ parts, (∀ ps, Dotted s.toList ps ↔ ps = parts) ∧
    (∀ o, parse s = .ok o ↔ List.Forall₂ Spells parts o.arcs ∧ parts.length ≤ 128) ∧
    (∀ n, parse s = .error (.tooManyArcs n) ↔
      (∀ part ∈ parts, ∃ arc, Spells part arc) ∧ n = parts.length ∧ 128 < parts.length) ∧
    ∀ t, parse s = .error (.invalidArc t) ↔ t = s ∧ ∃ part ∈ parts, ∀ arc, ¬Spells part arc :=
  ⟨components s.toList, fun _ => dotted_iff, fun _ => parse_eq_ok_iff, fun _ => parse_eq_tooManyArcs_iff,
    fun _ => parse_eq_invalidArc_iff⟩

/-- Dotted notation in the narrow sense: nothing, or numerals with one dot between each two, before which a dot may
stand. -/
def Plain (cs : List Char) (arcs : List UInt32) : Prop :=
  cs = [] ∧ arcs = [] ∨ ∃ parts, parts ≠ [] ∧
    (cs = ['.'].intercalate parts ∨ cs = '.' :: ['.'].intercalate parts) ∧ List.Forall₂ Numeral parts arcs

theorem Plain.exists_numeral (h : Plain cs arcs) (hsome : cs ≠ []) (hdot : cs.head? ≠ some '.') :
    ∀ piece ∈ Text.split '.' cs, ∃ arc, Numeral piece arc := by
  obtain ⟨rfl, -⟩ | ⟨parts, hparts, rfl | rfl, hnumerals⟩ := h
  · exact absurd rfl hsome
  · have hall : ∀ piece ∈ parts, ∃ arc, Numeral piece arc := by
      clear hsome hdot hparts
      induction hnumerals with
      | nil => simp
      | cons hpiece _ ih => exact List.forall_mem_cons.mpr ⟨⟨_, hpiece⟩, ih⟩
    rw [Text.split_intercalate hparts fun piece hmem => (hall piece hmem).elim fun _ harc => harc.dot_not_mem]
    exact hall
  · exact absurd rfl hdot

/-- Empty components, in the middle or at the end, and a plus sign are passed over, which have no place in the narrow
notation. -/
theorem not_plain_of_lenient :
    (parse "1..2" = .ok ⟨[1, 2]⟩ ∧ ∀ arcs, ¬Plain "1..2".toList arcs) ∧
    (parse "1." = .ok ⟨[1]⟩ ∧ ∀ arcs, ¬Plain "1.".toList arcs) ∧
    parse "+1" = .ok ⟨[1]⟩ ∧ ∀ arcs, ¬Plain "+1".toList arcs := by
  refine ⟨⟨by decide, fun arcs h => ?_⟩, ⟨by decide, fun arcs h => ?_⟩, by decide, fun arcs h => ?_⟩
  · obtain ⟨arc, harc⟩ := h.exists_numeral (by decide) (by decide) [] (by decide)
    exact harc.some_digit rfl
  · obtain ⟨arc, harc⟩ := h.exists_numeral (by decide) (by decide) [] (by decide)
    exact harc.some_digit rfl
  · obtain ⟨arc, harc⟩ := h.exists_numeral (by decide) (by decide) ['+', '1'] (by decide)
    exact harc.plus_not_mem (by decide)

end Oid
end Responder
