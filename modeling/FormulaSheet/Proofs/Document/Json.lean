import FormulaSheet.Proofs.Document.Reload
import FormulaSheet.Proofs.Record.Reading

/-!
# Which documents are read back from their text

A document is written with the value of each cell, and a value nests as deep as the expressions and
the cells it was made by, while the reader has a limit for lists and objects inside one another. The
text of a document is read back exactly where no cell is too deep for it
(`Reachable.ofJson_toJson_iff`); a list in which others nest 125 deep can be computed, but is not
read back (`not_ofJson_toJson_nested`).
-/

namespace FormulaSheet

open Json (nestingLimit rereadFloat)

/-- What is written for a cell is not too deep: its value stands inside of a record, the list of its
rows and a row, and the properties of an input stand two levels deeper. -/
def Cell.Shallow (c : Cell) : Prop :=
  c.value.nesting + 3 ≤ nestingLimit ∧
    ∀ i, c.input? = some i → ∀ p ∈ (i.withStart c.value).props, p.2.nesting + 5 ≤ nestingLimit

namespace Document

variable {d : Document}

/-- Every number with a fraction that is written for the document is read from its text again. -/
def NumbersAccepted (d : Document) : Prop :=
  ∀ x, .float x ∈ d.record.toJson.leaves → (rereadFloat x).isSome = true

/-- Rows with the ids of a document make a document. -/
theorem Keyed.exists_ofRecord (hd : d.Keyed) {r : Record}
    (hids : r.rows.map Row.id = d.record.rows.map Row.id) :
    ∃ d', ofRecord d.engine d.context r = .ok d' := by
  have hnodup : (Fields.keys (create d.engine d.context).cells ++ r.rows.map Row.id).Nodup := by
    rw [hids, hd.ids_record]
    exact hd.nodup
  obtain ⟨d₀, hd₀, -⟩ := foldlM_insertCell_eq hnodup
  refine ⟨d₀.recompute, ?_⟩
  rw [ofRecord, hd₀]
  rfl

/-- A document is read back where its record is. -/
theorem Keyed.exists_ofJson_iff (hd : d.Keyed) :
    (∃ d', ofJson d.engine d.context d.toJson = .ok d') ↔ d.record.reread.isSome = true := by
  have hparse := Record.toOption_parse_pretty d.record
  unfold ofJson toJson
  cases hread : Record.parse d.record.toJson.pretty with
  | error e =>
    rw [hread] at hparse
    rw [← hparse]
    simp [Except.toOption]
  | ok r =>
    rw [hread] at hparse
    have hrecord : d.record.reread = some r := hparse.symm
    have hids := Record.ids_of_reread hrecord
    rw [hrecord]
    exact iff_of_true (hd.exists_ofRecord hids) rfl

theorem shallow_iff_row (d : Document) (c : Cell) :
    ((d.row c).value.nesting ≤ nestingLimit - 3 ∧
      ∀ i, (d.row c).input? = some i → ∀ p ∈ i.props, p.2.nesting ≤ nestingLimit - 5) ↔
        c.Shallow := by
  have hthree : ∀ n, n ≤ nestingLimit - 3 ↔ n + 3 ≤ nestingLimit := by
    unfold nestingLimit
    omega
  have hfive : ∀ n, n ≤ nestingLimit - 5 ↔ n + 5 ≤ nestingLimit := by
    unfold nestingLimit
    omega
  simp only [row, hthree, hfive, Option.map_eq_some_iff, Cell.Shallow]
  apply and_congr_right
  intro _
  constructor
  · intro h i hi
    exact h _ ⟨i, hi, rfl⟩
  · rintro h _ ⟨i, hi, rfl⟩
    exact h i hi

/-- **The text of a document is read back exactly where none of its cells is too deep**, given that
the numbers in it are read again. -/
theorem Reachable.ofJson_toJson_iff (h : d.Reachable) (hnumbers : d.NumbersAccepted) :
    (∃ d', ofJson d.engine d.context d.toJson = .ok d') ↔ ∀ id c, d.cell? id = some c →
    c.Shallow := by
  have hd := h.valid.keyed
  rw [hd.exists_ofJson_iff, Record.isSome_reread (d.record.inRange_toJson.accepted hnumbers)]
  simp only [record, cellList, List.map_map, List.forall_mem_map, Function.comp_apply,
    shallow_iff_row]
  constructor
  · intro hall id c hc
    exact hall _ (mem_of_cell? hc)
  · intro hall p hp
    exact hall p.1 p.2 (hd.cell?_of_mem hp)

/-- A text between 25 pairs of brackets. -/
def nestedText (inner : String) : String :=
  String.ofList (List.replicate 25 '[') ++ inner ++ String.ofList (List.replicate 25 ']')

/-- Five cells with lists inside one another, each around the value of the cell before it. -/
def nestedDocument : Document :=
  (create ⟨.empty, .empty, .default⟩ []).run
    [.addCell "a" ⟨none, "a", nestedText "0.5", none, []⟩,
      .addCell "b" ⟨none, "b", nestedText "a", none, []⟩,
      .addCell "c" ⟨none, "c", nestedText "b", none, []⟩,
      .addCell "d" ⟨none, "d", nestedText "c", none, []⟩,
      .addCell "e" ⟨none, "e", nestedText "d", none, []⟩]

/-- A list in which lists nest 125 deep can be computed and written, but it is not read back. -/
theorem not_ofJson_toJson_nested :
    nestedDocument.Reachable ∧ nestedDocument.NumbersAccepted ∧
      ¬ ∃ d', ofJson nestedDocument.engine nestedDocument.context nestedDocument.toJson =
        .ok d' := by
  have hreachable : nestedDocument.Reachable := (Initial.create _ _).reachable.run _
  have hcomputed : (nestedDocument.cell? "e").map (fun c => c.value.nesting) = some 125 ∧
      ∀ leaf ∈ nestedDocument.record.toJson.leaves, leaf.NumberAccepted := by decide +kernel
  have hnumbers : nestedDocument.NumbersAccepted := fun x hx => hcomputed.2 (.float x) hx
  refine ⟨hreachable, hnumbers, ?_⟩
  rw [hreachable.ofJson_toJson_iff hnumbers]
  intro hshallow
  obtain ⟨c, hc, hnesting⟩ := Option.map_eq_some_iff.mp hcomputed.1
  have hfits := (hshallow "e" c hc).1
  rw [hnesting] at hfits
  exact absurd hfits (by decide)

end Document

end FormulaSheet
