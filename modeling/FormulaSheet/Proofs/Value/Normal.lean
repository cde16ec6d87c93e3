import FormulaSheet.Proofs.Decimal.Whole
import FormulaSheet.Value.Json

/-!
# Values read back from their JSON

What has no JSON at its place, and what has the JSON of something else, is read back as something
else: a function in a list as nothing, an infinity as nothing, negative zero as zero. This is a
normal form, because it has the same JSON (`Value.toJson_normal`), and a value that contains none of
these is read back as it was (`Value.normal_of_plain`).
-/

namespace FormulaSheet.Value

/-- What a value with JSON is read back as. -/
def normal (v : Value) : Value := ofJson v.toJson

/-! ### Numbers -/

theorem lt_of_natAbs_le {i : Int} (hi : i.natAbs ≤ maxSafeInteger.natAbs) : i.natAbs < 2 ^ 53 :=
  Nat.lt_of_le_of_lt hi (by decide)

/-- An integer that is written is read as a number with the same JSON. -/
theorem numberToJson_ofInt {i : Int} (hi : i.natAbs ≤ maxSafeInteger.natAbs) :
    numberToJson (Decimal.ofInt i) = .int i := by
  have hlt := lt_of_natAbs_le hi
  unfold numberToJson
  rw [Decimal.isFinite_ofInt hlt, Decimal.isWhole_ofInt hlt, Decimal.wholePart_ofInt hlt]
  simp [hi]

/-- What the JSON of a number is: nothing, an integer, or the number itself. -/
theorem numberToJson_cases (x : Float) :
    (x.isFinite = false ∧ numberToJson x = .null) ∨
    (Decimal.isWhole x = true ∧ (Decimal.wholePart x).natAbs ≤ maxSafeInteger.natAbs ∧
      numberToJson x = .int (Decimal.wholePart x)) ∨
    numberToJson x = .float x := by
  unfold numberToJson
  split
  · rename_i hfinite
    exact Or.inl ⟨by simpa using hfinite, rfl⟩
  · split
    · rename_i hsafe
      rw [Bool.and_eq_true, decide_eq_true_eq] at hsafe
      exact Or.inr (Or.inl ⟨hsafe.1, hsafe.2, rfl⟩)
    · exact Or.inr (Or.inr rfl)

theorem toJson?_ofJson_numberToJson (x : Float) :
    (ofJson (numberToJson x)).toJson? = some (numberToJson x) := by
  rcases numberToJson_cases x with ⟨_, hnull⟩ | ⟨_, hsafe, hint⟩ | hfloat
  · rw [hnull]
    rfl
  · rw [hint, ofJson, toJson?, numberToJson_ofInt hsafe]
  · rw [hfloat, ofJson, toJson?, hfloat]

theorem ofJson_numberToJson {x : Float} (hfinite : x.isFinite = true) (hzero : x ≠ -0.0) :
    ofJson (numberToJson x) = number x := by
  rcases numberToJson_cases x with ⟨hnot, _⟩ | ⟨hwhole, hsafe, hint⟩ | hfloat
  · rw [hfinite] at hnot
    cases hnot
  · rw [hint, ofJson, Decimal.ofInt_wholePart hwhole (lt_of_natAbs_le hsafe) hzero]
  · rw [hfloat, ofJson]

/-! ### Values -/

mutual
theorem toJson?_normal : ∀ v : Value, v.normal.toJson? = some v.toJson
  | absent | null | boolean _ | text _ | callable _ => rfl
  | number x => toJson?_ofJson_numberToJson x
  | array items => by
    show some (Json.arr (itemsToJson (itemsOfJson (itemsToJson items)))) =
        some (.arr (itemsToJson items))
    rw [itemsToJson_normal items]
  | object fields => by
    show some (Json.obj (fieldsToJson (membersOfJson (fieldsToJson fields)))) =
        some (.obj (fieldsToJson fields))
    rw [fieldsToJson_normal fields]

theorem itemsToJson_normal : ∀ items : List Value,
    itemsToJson (itemsOfJson (itemsToJson items)) = itemsToJson items
  | [] => rfl
  | v :: rest => by
    have hv := toJson?_normal v
    rw [itemsToJson, itemsOfJson, itemsToJson, itemsToJson_normal rest]
    show (v.normal.toJson?.getD .null) :: itemsToJson rest = _
    rw [hv]
    rfl

theorem fieldsToJson_normal : ∀ fields : List (String × Value),
    fieldsToJson (membersOfJson (fieldsToJson fields)) = fieldsToJson fields
  | [] => rfl
  | (k, v) :: rest => by
    have hv := toJson?_normal v
    have hrest := fieldsToJson_normal rest
    cases hjson : v.toJson? with
    | none =>
      rw [fieldsToJson, hjson]
      exact hrest
    | some j =>
      have hnormal : v.normal = ofJson j := by rw [normal, toJson, hjson, Option.getD_some]
      have hsame : (ofJson j).toJson? = some j := by
        rw [← hnormal, hv, toJson, hjson, Option.getD_some]
      rw [fieldsToJson, hjson]
      dsimp only
      rw [membersOfJson, fieldsToJson, hsame]
      dsimp only
      rw [hrest]
end

/-- **The normal form of a value has the JSON of the value.** -/
theorem toJson_normal (v : Value) : v.normal.toJson = v.toJson := by
  rw [toJson, toJson?_normal, Option.getD_some]

/-- What is read back is there. -/
theorem isAbsent_normal (v : Value) : v.normal.isAbsent = false := by
  have hv := toJson?_normal v
  cases hnormal : v.normal with
  | absent =>
    rw [hnormal] at hv
    cases hv
  | _ => rfl

/-! ### Plain values -/

mutual
/-- A value is plain where everything in it has JSON of its own: there is no absent value and no
function in it, and all its numbers are finite and none is negative zero. -/
def Plain : Value → Prop
  | absent | callable _ => False
  | null | boolean _ | text _ => True
  | number x => x.isFinite = true ∧ x ≠ -0.0
  | array items => PlainItems items
  | object fields => PlainFields fields

def PlainItems : List Value → Prop
  | [] => True
  | v :: rest => Plain v ∧ PlainItems rest

def PlainFields : List (String × Value) → Prop
  | [] => True
  | (_, v) :: rest => Plain v ∧ PlainFields rest
end

theorem Plain.toJson? {v : Value} (h : v.Plain) : v.toJson? = some v.toJson := by
  cases v with
  | absent => exact h.elim
  | callable c => exact h.elim
  | _ => rfl

theorem Plain.isAbsent {v : Value} (h : v.Plain) : v.isAbsent = false := by
  cases v with
  | absent => exact h.elim
  | _ => rfl

mutual
/-- **A plain value is read back as it was.** -/
theorem normal_of_plain : ∀ v : Value, v.Plain → v.normal = v
  | absent, h | callable _, h => h.elim
  | null, _ | boolean _, _ | text _, _ => rfl
  | number _, h => ofJson_numberToJson h.1 h.2
  | array items, h => congrArg array (itemsOfJson_of_plain items h)
  | object fields, h => congrArg object (membersOfJson_of_plain fields h)

theorem itemsOfJson_of_plain :
    ∀ items : List Value, PlainItems items → itemsOfJson (itemsToJson items) = items
  | [], _ => rfl
  | v :: rest, h => by
    rw [itemsToJson, itemsOfJson, itemsOfJson_of_plain rest h.2]
    exact congrArg (· :: rest) (normal_of_plain v h.1)

theorem membersOfJson_of_plain : ∀ fields : List (String × Value), PlainFields fields →
    membersOfJson (fieldsToJson fields) = fields
  | [], _ => rfl
  | (k, v) :: rest, h => by
    rw [fieldsToJson, h.1.toJson?]
    dsimp only
    rw [membersOfJson, membersOfJson_of_plain rest h.2]
    exact congrArg (fun v => (k, v) :: rest) (normal_of_plain v h.1)
end

end FormulaSheet.Value
