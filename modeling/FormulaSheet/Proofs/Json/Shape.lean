import FormulaSheet.Json.Shape
import FormulaSheet.Proofs.Json.Tree

/-!
# Written objects are read as structures

An object is read by the shape of a structure where each of its members is one of the shape, none
comes twice, and all that are required are there. Each member is read in its turn and changes the
structure that was read so far (`Json.Shape.readsAs_read`).
-/

namespace FormulaSheet.Json

open Read

variable {α β σ : Type} {indent : String} {level : Nat}

theorem readsAs_stringValue (s : String) : ReadsAs stringValue (quoted s).toList (some s) := by
  rw [toList_quoted]
  apply readsAs_nextSolid rfl
  intro rest _
  have htext := gives_quotedText s rest
  rw [toList_quoted] at htext
  exact htext

theorem readsAs_listOf (hindent : Blank indent.toList) {item : Read α} {xs : List β}
    {json : β → Json} {o : β → Option α}
    (hsolid : ∀ x ∈ xs, Solid (indentedAt indent (level + 1) (json x)).toList)
    (h : ∀ x ∈ xs, ReadsAs item (indentedAt indent (level + 1) (json x)).toList (o x)) :
    ReadsAs (listOf item) (indentedAt indent level (.arr (xs.map json))).toList (xs.mapM o) := by
  have hnext : ∀ x ∈ xs, NextReads (listItem item) (indentedAt indent (level + 1) (json x)).toList
      (o x) := by
    intro x hx
    exact nextReads_listItem (hsolid x hx) (h x hx)
  have hread : ReadsAs (listOf item)
      (bracketed indent level "[" "]" (xs.map fun x =>
        indentedAt indent (level + 1) (json x))).toList
      ((xs.mapM o).map id) :=
    readsAs_bracketed hindent String.toList_ofList String.toList_ofList rfl (nextEnds_listItem item)
      hnext rfl
  rw [Option.map_id] at hread
  rw [indentedAt, indentedItems_eq_map, List.map_map]
  exact hread

theorem mapM_some (xs : List α) : xs.mapM some = some xs :=
  (mapM_eq_map fun _ _ => rfl).trans (congrArg some (List.map_id xs))

theorem readsAs_texts (hindent : Blank indent.toList) (xs : List String) :
    ReadsAs (listOf stringValue)
      (indentedAt indent level (.arr (xs.map .str))).toList (some xs) := by
  have hread : ReadsAs (listOf stringValue) (indentedAt indent level (.arr (xs.map .str))).toList
      (xs.mapM some) := by
    apply readsAs_listOf hindent
    · intro s _
      rw [indentedAt]
      exact (readsLeaf_quoted s).solid
    · intro s _
      rw [indentedAt]
      exact readsAs_stringValue s
  rw [mapM_some] at hread
  exact hread

/-- The members of an object are read one by one, and a name that comes twice keeps its last
value. -/
theorem readsAs_mapOf (hindent : Blank indent.toList) {item : Read α} {fields : List (String × β)}
    {json : β → Json} {o : β → Option α}
    (h : ∀ p ∈ fields, ReadsAs item (indentedAt indent (level + 1) (json p.2)).toList (o p.2)) :
    ReadsAs (mapOf item)
      (indentedAt indent level (.obj (fields.map fun p => (p.1, json p.2)))).toList
      ((fields.mapM fun p => (o p.2).map (p.1, ·)).map Fields.ofList) := by
  have hnext : ∀ p ∈ fields, NextReads (objectMember item)
      (quoted p.1 ++ ": " ++ indentedAt indent (level + 1) (json p.2)).toList
        ((o p.2).map (p.1, ·)) := by
    intro p hp
    rw [toList_member]
    exact nextReads_objectMember p.1 (h p hp)
  rw [indentedAt, indentedMembers_eq_map, List.map_map]
  exact readsAs_bracketed hindent String.toList_ofList String.toList_ofList rfl
    (nextEnds_objectMember item)
    hnext rfl

/-- What is there is read, where it does not begin like `null`. -/
theorem readsAs_optional {item : Read α} {c : Char} {text : List Char} {o : Option α}
    (hblank : isBlank c = false) (hnull : c ≠ 'n') (h : ReadsAs item (c :: text) o) :
    ReadsAs (optional item) (c :: text) (o.map some) := by
  apply readsAs_nextSolid hblank
  intro rest hrest
  apply Gives.ite_neg
  · intro heq
    exact hnull (Option.some.inj heq)
  · have hitem := (h [] rest Blank.nil hrest).map some
    rw [Option.map_map] at hitem ⊢
    exact hitem

namespace Shape

variable {shape : Shape σ}

/-- A member of an object as it is written, and how the structure changes when it is read; there is
no change where the reading stops. -/
structure Written (σ : Type) where
  name : String
  json : Json
  put : Option (σ → σ)

/-- The shape knows the member and reads it. -/
def Reads (shape : Shape σ) (name : String) (text : List Char) (put : Option (σ → σ)) : Prop :=
  ∃ m, shape.members.find? (fun m => m.name == name) = some m ∧ ReadsAs m.read text put

/-- The structure after its members were read one after the other. -/
def putAll (s : σ) (ws : List (Written σ)) : Option σ :=
  ws.foldlM (fun s w => w.put.map fun put => put s) s

theorem putAll_cons (s : σ) (x : Written σ) (ws : List (Written σ)) :
    putAll s (x :: ws) = x.put.bind fun put => putAll (put s) ws := by
  unfold putAll
  rw [List.foldlM_cons]
  cases x.put <;> rfl

theorem putAll_append (s : σ) (ws ws' : List (Written σ)) :
    putAll s (ws ++ ws') = (putAll s ws).bind fun s => putAll s ws' :=
  List.foldlM_append

/-- The line of a member, whose value has the given text. -/
def line (text : Written σ → List Char) (x : Written σ) : List Char := memberText x.name (text x)

variable {x : Written σ} {ws : List (Written σ)} {seen : List String} {s : σ} {fuel : Nat}
  {cs cs' w w' rest : List Char} {text : Written σ → List Char}

/-- A member is read, and then the others. -/
theorem gives_namedMembers_succ {first : Bool}
    (hname : Gives (nameFollows first) cs (some (true, line text x ++ cs')))
    (hread : shape.Reads x.name (text x) x.put) (hnew : x.name ∉ seen) (hends : Ends cs')
    (hrest : ∀ s, Gives (namedMembers shape fuel false (x.name :: seen) s) cs'
      ((putAll s ws).map fun s => (((ws.map Written.name).reverse ++ x.name :: seen, s), rest))) :
    Gives (namedMembers shape (fuel + 1) first seen s) cs
      ((putAll s (x :: ws)).map fun s =>
        ((((x :: ws).map Written.name).reverse ++ seen, s), rest)) := by
  obtain ⟨m, hfind, hvalue⟩ := hread
  have hnames : ((x :: ws).map Written.name).reverse ++ seen = (ws.map Written.name).reverse ++
      x.name :: seen := by
    simp
  rw [putAll_cons, Option.map_bind, hnames]
  apply hname.bind
  apply Gives.ite_pos rfl
  rw [line, memberText_append]
  apply (gives_quotedText x.name _).bind
  simp only [hfind]
  apply Gives.ite_neg
  · rw [List.contains_iff_mem]
    exact hnew
  · apply (gives_colon _).bind
    exact (hvalue [' '] cs' Blank.space hends).bind_option fun put _ => hrest (put s)

/-- The members after the first one; their names are seen, the last one first. -/
theorem gives_namedMembers (hreads : ∀ x ∈ ws, shape.Reads x.name (text x) x.put)
    (hnodup : (ws.map Written.name).Nodup) (hseen : ∀ x ∈ ws, x.name ∉ seen) (hw : Blank w)
    (hw' : Blank w') (hends : ∀ rest, Ends (w' ++ '\x7d' :: rest)) (hfuel : ws.length < fuel) :
    Gives (namedMembers shape fuel false seen s) (tailText (line text) w w' '\x7d' ws rest)
      ((putAll s ws).map fun s =>
        (((ws.map Written.name).reverse ++ seen, s), '\x7d' :: rest)) := by
  obtain ⟨fuel, rfl⟩ := Nat.exists_eq_succ_of_ne_zero (Nat.ne_of_gt (Nat.zero_lt_of_lt hfuel))
  induction ws generalizing fuel seen s with
  | nil => exact (gives_nameFollows_end hw' rest).bind (gives_pure (seen, s) _)
  | cons x ws ih =>
    have hpos : ws.length < fuel := Nat.lt_of_succ_lt_succ hfuel
    obtain ⟨fuel, rfl⟩ := Nat.exists_eq_succ_of_ne_zero (Nat.ne_of_gt (Nat.zero_lt_of_lt hpos))
    rw [List.map_cons, List.nodup_cons] at hnodup
    have hnew : ∀ y ∈ ws, y.name ∉ x.name :: seen := by
      intro y hy hmem
      rcases List.mem_cons.mp hmem with heq | hmem
      · exact hnodup.1 (heq ▸ List.mem_map_of_mem hy)
      · exact hseen y (List.mem_cons_of_mem x hy) hmem
    have hname : Gives (nameFollows false) (tailText (line text) w w' '\x7d' (x :: ws) rest)
        (some (true, line text x ++ tailText (line text) w w' '\x7d' ws rest)) := by
      obtain ⟨t, ht⟩ :=
        exists_memberText_append x.name (text x) (tailText (line text) w w' '\x7d' ws rest)
      rw [tailText_cons, line, ht]
      exact gives_nameFollows_next hw t
    apply gives_namedMembers_succ hname (hreads x List.mem_cons_self) (hseen x List.mem_cons_self)
      (ends_tailText hends)
    intro s
    exact ih (fun y hy => hreads y (List.mem_cons_of_mem x hy)) hnodup.2 hnew fuel hpos

/-- All names that the shape requires were seen. -/
theorem find?_missing {names : List String}
    (hrequired : ∀ m ∈ shape.members, m.required = true → m.name ∈ names) :
    shape.members.find? (fun m => m.required && !names.contains m.name) = none := by
  rw [List.find?_eq_none]
  intro m hm hmissing
  rw [Bool.and_eq_true, Bool.not_eq_true'] at hmissing
  have hmem := hrequired m hm hmissing.1
  rw [← List.contains_iff_mem, hmissing.2] at hmem
  cases hmem

theorem gives_ofObject (hreads : ∀ y ∈ x :: ws, shape.Reads y.name (text y) y.put)
    (hnodup : ((x :: ws).map Written.name).Nodup)
    (hrequired : ∀ m ∈ shape.members, m.required = true → m.name ∈ (x :: ws).map Written.name)
    (hw : Blank w) (hw' : Blank w') (hends : ∀ rest, Ends (w' ++ '\x7d' :: rest)) :
    Gives shape.ofObject
      ('\x7b' :: (w ++ (line text x ++ tailText (line text) w w' '\x7d' ws rest)))
      ((putAll shape.start (x :: ws)).map (·, rest)) := by
  have hfuel :
      ws.length < (w ++ (line text x ++ tailText (line text) w w' '\x7d' ws rest)).length := by
    have := length_lt_tailText (line text) w w' '\x7d' ws rest
    simp only [List.length_append]
    omega
  have hmissing : shape.members.find? (fun m => m.required &&
      !(((x :: ws).map Written.name).reverse ++ []).contains m.name) = none := by
    apply find?_missing
    intro m hm hmust
    rw [List.append_nil, List.mem_reverse]
    exact hrequired m hm hmust
  rw [List.map_cons, List.nodup_cons] at hnodup
  have hnew : ∀ y ∈ ws, y.name ∉ [x.name] := by
    intro y hy hmem
    exact hnodup.1 (List.mem_singleton.mp hmem ▸ List.mem_map_of_mem hy)
  have hname :
      Gives (nameFollows true) (w ++ (line text x ++ tailText (line text) w w' '\x7d' ws rest))
        (some (true, line text x ++ tailText (line text) w w' '\x7d' ws rest)) := by
    obtain ⟨t, ht⟩ :=
      exists_memberText_append x.name (text x) (tailText (line text) w w' '\x7d' ws rest)
    rw [line, ht]
    exact gives_nameFollows_first hw t
  have hmembers :=
    gives_namedMembers_succ (s := shape.start) hname (hreads x List.mem_cons_self) (by simp)
      (ends_tailText hends) fun s =>
        gives_namedMembers (s := s) (fun y hy => hreads y (List.mem_cons_of_mem x hy))
          hnodup.2 hnew hw hw' hends hfuel
  apply (gives_pass _ _).bind
  apply (gives_left _).bind
  cases hall : putAll shape.start (x :: ws) with
  | none =>
    rw [hall] at hmembers
    exact hmembers.bind_none
  | some s =>
    rw [hall] at hmembers
    apply hmembers.bind
    simp only [hmissing]
    exact (gives_pass _ _).bind (gives_pure s rest)

theorem toList_written (x : Written σ) (ws : List (Written σ)) (rest : List Char) :
    (indentedAt indent level (.obj ((x :: ws).map fun y => (y.name, y.json)))).toList ++ rest =
      '\x7b' :: ((lineBreak indent (level + 1)).toList ++
        (line (fun y => (indentedAt indent (level + 1) y.json).toList) x ++
          tailText (line fun y => (indentedAt indent (level + 1) y.json).toList)
            (lineBreak indent (level + 1)).toList (lineBreak indent level).toList '\x7d'
            ws rest)) := by
  rw [indentedAt, indentedMembers_eq_map, List.map_map, toList_bracketed_cons String.toList_ofList]
  simp only [Function.comp_def, toList_member]
  rfl

/-- **A written object is read as a structure** from the members it has, unless one of them stops
the reading. -/
theorem readsAs_read (hindent : Blank indent.toList)
    (hreads : ∀ y ∈ x :: ws, shape.Reads y.name (indentedAt indent (level + 1) y.json).toList y.put)
    (hnodup : ((x :: ws).map Written.name).Nodup)
    (hrequired : ∀ m ∈ shape.members, m.required = true → m.name ∈ (x :: ws).map Written.name) :
    ReadsAs shape.read
      (indentedAt indent level (.obj ((x :: ws).map fun y => (y.name, y.json)))).toList
      (putAll shape.start (x :: ws)) := by
  intro w rest hw _
  rw [toList_written]
  apply (gives_nextSolid hw rfl _).bind
  apply Gives.ite_pos rfl
  apply Gives.ite_neg (by decide)
  exact gives_ofObject hreads hnodup hrequired (blank_lineBreak hindent (level + 1))
    (blank_lineBreak hindent level)
    fun rest => ends_lineBreak indent level ('\x7d' :: rest)

end Shape

end FormulaSheet.Json
