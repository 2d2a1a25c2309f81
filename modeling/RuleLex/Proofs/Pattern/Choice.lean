/-
The ends of a byte pattern.

A pattern with alternations stands for several flat ones: `Choice es flat` takes
one alternative of every alternation, also of those inside the ones taken.  The
reader refuses a jump at either end of a pattern, but it looks at the outermost
sequence only.  So a flat pattern may begin or end with a jump, and does so exactly
where the pattern begins or ends with an alternation and one of the alternatives
with a jump, at whatever depth: `exposed_of_parse`.
-/
import RuleLex.Proofs.Pattern.Render

namespace RuleLex
namespace Pattern

/-- The flat sequence is what is left when one alternative of every alternation is
taken. -/
inductive Choice : List Element → List Element → Prop
  | nil : Choice [] []
  | byte {es flat : List Element} (high low : Nibble) (rest : Choice es flat) :
    Choice (.byte high low :: es) (.byte high low :: flat)
  | jump {es flat : List Element} (min : UInt32) (max : Option UInt32) (rest : Choice es flat) :
    Choice (.jump min max :: es) (.jump min max :: flat)
  | choose {alternatives : List (List Element)} {chosen inner es flat : List Element}
    (h : chosen ∈ alternatives) (first : Choice chosen inner) (rest : Choice es flat) :
    Choice (.alternation alternatives :: es) (inner ++ flat)

/-- Some choice has a jump at the end that `edge` shows. -/
def Exposed (edge : List Element → Option Element) (es : List Element) : Prop :=
  ∃ flat, Choice es flat ∧ ∃ e, edge flat = some e ∧ e.isJump = true

variable {a b es flat : List Element} {e : Element} {alternatives : List (List Element)}

/-! ## Choices -/

theorem choice_alternation :
    Choice [.alternation alternatives] flat ↔ ∃ chosen ∈ alternatives, Choice chosen flat := by
  constructor
  · intro h
    cases h with
    | choose hmem first rest =>
      cases rest
      rw [List.append_nil]
      exact ⟨_, hmem, first⟩
  · intro h
    obtain ⟨chosen, hmem, first⟩ := h
    have one := Choice.choose hmem first .nil
    rwa [List.append_nil] at one

theorem Choice.append {s t : List Element} (hs : Choice a s) (ht : Choice b t) :
    Choice (a ++ b) (s ++ t) := by
  induction hs with
  | nil => exact ht
  | byte high low rest ih => exact .byte high low ih
  | jump min max rest ih => exact .jump min max ih
  | choose hmem first rest _ ih =>
    rw [List.append_assoc]
    exact .choose hmem first ih

theorem choice_append_iff :
    Choice (a ++ b) flat ↔ ∃ s t, flat = s ++ t ∧ Choice a s ∧ Choice b t := by
  constructor
  · intro h
    induction a generalizing flat with
    | nil => exact ⟨[], flat, rfl, .nil, h⟩
    | cons e a ih =>
      cases h with
      | byte high low rest =>
        obtain ⟨s, t, rfl, hs, ht⟩ := ih rest
        exact ⟨_, t, rfl, .byte high low hs, ht⟩
      | jump min max rest =>
        obtain ⟨s, t, rfl, hs, ht⟩ := ih rest
        exact ⟨_, t, rfl, .jump min max hs, ht⟩
      | choose hmem first rest =>
        obtain ⟨s, t, rfl, hs, ht⟩ := ih rest
        exact ⟨_, t, (List.append_assoc _ _ _).symm, .choose hmem first hs, ht⟩
  · rintro ⟨s, t, rfl, hs, ht⟩
    exact hs.append ht

theorem sound_of_mem {chosen : List Element} (h : SoundAlternatives alternatives)
    (hmem : chosen ∈ alternatives) : chosen ≠ [] ∧ Sound chosen := by
  induction alternatives with
  | nil => cases hmem
  | cons s rest ih =>
    obtain ⟨nonempty, sound, others⟩ := h
    rcases List.mem_cons.1 hmem with rfl | hmem
    · exact ⟨nonempty, sound⟩
    · exact ih others hmem

theorem sound_append : Sound (a ++ b) ↔ Sound a ∧ Sound b := by
  induction a with
  | nil => simp [Sound]
  | cons e a ih => simp only [List.cons_append, Sound, ih, and_assoc]

/-- Alternatives hold something, so a choice loses no element altogether. -/
theorem Choice.ne_nil (h : Choice es flat) (sound : Sound es) (nonempty : es ≠ []) :
    flat ≠ [] := by
  induction h with
  | nil => exact nonempty
  | byte | jump => exact List.cons_ne_nil _ _
  | choose hmem first rest ih _ =>
    obtain ⟨chosen_ne_nil, chosen_sound⟩ := sound_of_mem sound.1.2 hmem
    exact List.append_ne_nil_of_left_ne_nil (ih chosen_sound chosen_ne_nil) _

theorem Choice.ne_alternation (h : Choice es flat) :
    ∀ e ∈ flat, ∀ alternatives, e ≠ .alternation alternatives := by
  induction h with
  | nil => nofun
  | byte | jump => simp_all
  | choose hmem first rest hfirst hrest =>
    exact List.forall_mem_append.2 ⟨hfirst, hrest⟩

mutual

theorem exists_choice (es : List Element) (h : Sound es) : ∃ flat, Choice es flat :=
  match es, h with
  | [], _ => ⟨[], .nil⟩
  | e :: es, ⟨he, hes⟩ => by
    obtain ⟨first, hfirst⟩ := exists_choice_element e he
    obtain ⟨rest, hrest⟩ := exists_choice es hes
    exact ⟨_, hfirst.append hrest⟩

theorem exists_choice_element (e : Element) (h : e.Sound) : ∃ flat, Choice [e] flat :=
  match e, h with
  | .byte high low, _ => ⟨_, .byte high low .nil⟩
  | .jump min max, _ => ⟨_, .jump min max .nil⟩
  | .alternation alternatives, ⟨nonempty, sound⟩ => by
    obtain ⟨chosen, hmem, flat, hflat⟩ := exists_choice_alternatives alternatives nonempty sound
    exact ⟨flat, choice_alternation.2 ⟨chosen, hmem, hflat⟩⟩

theorem exists_choice_alternatives (alternatives : List (List Element))
    (nonempty : alternatives ≠ []) (h : SoundAlternatives alternatives) :
    ∃ chosen ∈ alternatives, ∃ flat, Choice chosen flat :=
  match alternatives, h with
  | [], _ => absurd rfl nonempty
  | s :: rest, ⟨_, sound, _⟩ => by
    obtain ⟨flat, hflat⟩ := exists_choice s sound
    exact ⟨s, List.mem_cons_self, flat, hflat⟩

end

/-! ## Jumps at the ends -/

/-- A single element other than a jump exposes one only out of an alternation. -/
theorem exposed_singleton {edge : List Element → Option Element}
    (hedge : ∀ e, edge [e] = some e) (he : e.isJump = false) :
    Exposed edge [e] ↔
      ∃ alternatives, e = .alternation alternatives ∧ ∃ s ∈ alternatives, Exposed edge s := by
  constructor
  · rintro ⟨flat, hflat, jump, hjump, isJump⟩
    cases e with
    | byte high low =>
      cases hflat with
      | byte _ _ rest =>
        cases rest
        rw [hedge] at hjump
        cases hjump
        cases isJump
    | jump => cases he
    | alternation alternatives =>
      obtain ⟨chosen, hmem, hchosen⟩ := choice_alternation.1 hflat
      exact ⟨alternatives, rfl, chosen, hmem, flat, hchosen, jump, hjump, isJump⟩
  · rintro ⟨alternatives, rfl, chosen, hmem, flat, hchosen, exposed⟩
    exact ⟨flat, choice_alternation.2 ⟨chosen, hmem, hchosen⟩, exposed⟩

/-- What is exposed at the beginning is exposed by the first element. -/
theorem exposed_head (sound : Sound (e :: es)) :
    Exposed List.head? (e :: es) ↔ Exposed List.head? [e] := by
  have one {s : List Element} (hs : Choice [e] s) (t : List Element) :
      (s ++ t).head? = s.head? :=
    List.head?_append_of_ne_nil _ (hs.ne_nil ⟨sound.1, trivial⟩ (List.cons_ne_nil _ _))
  constructor
  · rintro ⟨flat, hflat, exposed⟩
    obtain ⟨s, t, rfl, hs, ht⟩ := (choice_append_iff (a := [e])).1 hflat
    rw [one hs] at exposed
    exact ⟨s, hs, exposed⟩
  · rintro ⟨s, hs, exposed⟩
    obtain ⟨t, ht⟩ := exists_choice es sound.2
    refine ⟨s ++ t, hs.append ht, ?_⟩
    rw [one hs]
    exact exposed

/-- What is exposed at the end is exposed by the last element. -/
theorem exposed_last (sound : Sound (es ++ [e])) :
    Exposed List.getLast? (es ++ [e]) ↔ Exposed List.getLast? [e] := by
  obtain ⟨hes, he⟩ := sound_append.1 sound
  have one {t : List Element} (ht : Choice [e] t) (s : List Element) :
      (s ++ t).getLast? = t.getLast? :=
    List.getLast?_append_of_ne_nil _ (ht.ne_nil he (List.cons_ne_nil _ _))
  constructor
  · rintro ⟨flat, hflat, exposed⟩
    obtain ⟨s, t, rfl, hs, ht⟩ := choice_append_iff.1 hflat
    rw [one ht] at exposed
    exact ⟨t, ht, exposed⟩
  · rintro ⟨t, ht, exposed⟩
    obtain ⟨s, hs⟩ := exists_choice es hes
    refine ⟨s ++ t, hs.append ht, ?_⟩
    rw [one ht]
    exact exposed

/-- Whatever alternatives are taken, an accepted pattern leaves bytes and jumps, at
least one of them.  They can begin with a jump exactly if the pattern begins with an
alternation and one of its alternatives can, and the same holds of the end. -/
theorem exposed_of_parse {text : List UInt8} (h : parse text = .ok es) :
    (∃ flat, Choice es flat) ∧
    (∀ flat, Choice es flat →
      flat ≠ [] ∧ ∀ e ∈ flat, ∀ alternatives, e ≠ .alternation alternatives) ∧
    (Exposed List.head? es ↔ ∃ alternatives, es.head? = some (.alternation alternatives) ∧
      ∃ s ∈ alternatives, Exposed List.head? s) ∧
    (Exposed List.getLast? es ↔ ∃ alternatives, es.getLast? = some (.alternation alternatives) ∧
      ∃ s ∈ alternatives, Exposed List.getLast? s) := by
  have wellFormed := wellFormed_of_parse h
  refine ⟨exists_choice es wellFormed.sound, fun flat hflat =>
    ⟨hflat.ne_nil wellFormed.sound wellFormed.nonempty, hflat.ne_alternation⟩, ?_, ?_⟩
  · obtain ⟨e, rest, rfl⟩ := List.exists_cons_of_ne_nil wellFormed.nonempty
    rw [exposed_head wellFormed.sound,
      exposed_singleton (fun _ => rfl) (wellFormed.first e rfl), List.head?_cons]
    simp only [Option.some.injEq]
  · obtain ⟨init, e, rfl⟩ := (List.eq_nil_or_concat' es).resolve_left wellFormed.nonempty
    rw [exposed_last wellFormed.sound,
      exposed_singleton (fun _ => rfl) (wellFormed.last e List.getLast?_concat),
      List.getLast?_concat]
    simp only [Option.some.injEq]

/-- A pattern whose only alternative begins with a jump is accepted and begins with
that jump. -/
theorem exposed_of_parse_jump :
    let es : List Element := [.alternation [[.jump 2 (some 2), .ofByte 0xAA]]]
    parse (Ascii.bytes "\x7b ([2] AA) \x7d") = .ok es ∧ Exposed List.head? es ∧
      ¬ Exposed List.getLast? es := by
  intro es
  have wellFormed : WellFormed es :=
    { nonempty := List.cons_ne_nil _ _
      sound := by simp [es, Sound, Element.Sound, SoundAlternatives, Element.ofByte, Nibble.IsDigit]
      first := by simp [es, Element.isJump]
      last := by simp [es, Element.isJump]
      shallow := by decide }
  have written : Ascii.bytes (render es) = Ascii.bytes "\x7b ([2] AA) \x7d" := by decide +kernel
  have accepted : parse (Ascii.bytes "\x7b ([2] AA) \x7d") = .ok es := by
    rw [← written]
    exact parse_render wellFormed
  obtain ⟨-, -, head, last⟩ := exposed_of_parse accepted
  refine ⟨accepted, head.2 ⟨_, rfl, _, List.mem_singleton_self _, ?_⟩, fun exposed => ?_⟩
  · exact ⟨_, .jump 2 (some 2) (.byte _ _ .nil), _, rfl, rfl⟩
  · obtain ⟨alternatives, halternatives, s, hmem, flat, hflat, e, he, isJump⟩ := last.1 exposed
    cases halternatives
    obtain rfl := List.mem_singleton.1 hmem
    cases hflat with
    | jump _ _ rest =>
      cases rest with
      | byte _ _ rest =>
        cases rest
        cases he
        cases isJump

end Pattern
end RuleLex
