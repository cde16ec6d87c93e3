import FormulaSheet.Proofs.Expr.Parse
import FormulaSheet.Proofs.Expr.Respell
import FormulaSheet.Proofs.Expr.Splice

/-!
# Parsing a respelled text

Replacing the free names of an expression in its text gives the text of the respelled
expression (`Expr.parse_renameIn`). A derivation is carried over from the lexemes of the one
text to those of the other level by level; an entry `{ x }` that turns into `{ x: y }` takes
one more level of nesting.
-/

namespace FormulaSheet.Expr

variable {rename : String → Option String}

/-! ### Derivations of respelled expressions -/

/-- What the one language has for lexemes, the other has, respelled, for their respelling. -/
def Carries {α : Type} (edits : α → List Edit) (Same : α → α → Prop) (L L' : Lang α) : Prop :=
  ∀ ls a, L ls a → ∃ ts, Respelled ls (edits a) ts ∧
    ∀ ls', ls'.map Lexeme.token = ts → ∃ a', L' ls' a' ∧ Same a a'

section Lists

variable {α : Type} {edits : α → List Edit} {Same : α → α → Prop}

theorem Carries.mono {L L' M : Lang α} (h : Carries edits Same L L')
    (hle : ∀ ls a, L' ls a → M ls a) : Carries edits Same L M := by
  intro ls a ha
  obtain ⟨ts, hts, hcarry⟩ := h ls a ha
  refine ⟨ts, hts, fun ls' hls' => ?_⟩
  obtain ⟨a', ha', hsame⟩ := hcarry ls' hls'
  exact ⟨a', hle ls' a' ha', hsame⟩

theorem Carries.separated {L L' : Lang α} (h : Carries edits Same L L') :
    Carries (List.flatMap edits) (List.Forall₂ Same) (Separated L) (Separated L') := by
  intro ls as hsep
  induction hsep with
  | nil =>
    refine ⟨[], Respelled.nil, fun ls' hls' => ?_⟩
    rw [List.map_eq_nil_iff.mp hls']
    exact ⟨[], Separated.nil, List.Forall₂.nil⟩
  | @last ls a hitem =>
    obtain ⟨ts, hts, hcarry⟩ := h ls a hitem
    refine ⟨ts, ?_, fun ls' hls' => ?_⟩
    · rw [List.flatMap_singleton]
      exact hts
    · obtain ⟨a', ha', hsame⟩ := hcarry ls' hls'
      exact ⟨[a'], Separated.last ha', List.Forall₂.cons hsame List.Forall₂.nil⟩
  | @cons ls ks comma a as hitem hcomma _ ih =>
    obtain ⟨ts, hts, hcarry⟩ := h ls a hitem
    obtain ⟨us, hus, hcarries⟩ := ih
    refine ⟨ts ++ comma.token :: us, ?_, fun ls' hls' => ?_⟩
    · rw [List.flatMap_cons]
      exact hts.append (Respelled.keep hus)
    · obtain ⟨ls₁, ls₂, rfl, hls₁, hls₂⟩ := List.map_eq_append_iff.mp hls'
      obtain ⟨comma', ks', rfl, hcomma', hks'⟩ := List.map_eq_cons_iff.mp hls₂
      obtain ⟨a', ha', hsame⟩ := hcarry ls₁ hls₁
      obtain ⟨as', has', hsames⟩ := hcarries ks' hks'
      exact ⟨a' :: as', Separated.cons ha' (hcomma'.trans hcomma) has',
        List.Forall₂.cons hsame hsames⟩

end Lists

/-- The expressions of the one language are carried over to the other. -/
abbrev CarriesExpr (rename : String → Option String) (L L' : Lang Expr) : Prop :=
  Carries (edits rename) (Respells rename) L L'

section Runs

theorem edits_mkRun (e : Expr) (es : List (BinaryOp × Expr)) :
    (mkRun e es).edits rename = e.edits rename ++ es.flatMap fun p => p.2.edits rename := by
  cases es with
  | nil => rw [mkRun, List.flatMap_nil, List.append_nil]
  | cons p es => rw [mkRun, edits, runEdits_eq_flatMap]

theorem edits_mkLogical (op : LogicalOp) (e : Expr) (es : List Expr) :
    (mkLogical op e es).edits rename = e.edits rename ++ es.flatMap (edits rename) := by
  cases es with
  | nil => rw [mkLogical, List.flatMap_nil, List.append_nil]
  | cons p es => rw [mkLogical, edits, listEdits_eq_flatMap, List.flatMap_cons]

variable {L L' : Lang Expr}

theorem Carries.runRest (h : CarriesExpr rename L L') (tier : Tier) :
    Carries (List.flatMap fun p => p.2.edits rename) (List.Forall₂ (RespellsOperand rename))
      (RunRest tier L) (RunRest tier L') := by
  intro ls es hrun
  induction hrun with
  | nil =>
    refine ⟨[], Respelled.nil, fun ls' hls' => ?_⟩
    rw [List.map_eq_nil_iff.mp hls']
    exact ⟨[], RunRest.nil, List.Forall₂.nil⟩
  | @cons l op ls ks e es hsign hop hoperand _ ih =>
    obtain ⟨ts, hts, hcarry⟩ := h ls e hoperand
    obtain ⟨us, hus, hcarries⟩ := ih
    refine ⟨l.token :: ts ++ us, ?_, fun ls' hls' => ?_⟩
    · rw [List.flatMap_cons]
      exact Respelled.keep (hts.append hus)
    · obtain ⟨l', ls', rfl, hl', hrest⟩ := List.map_eq_cons_iff.mp hls'
      obtain ⟨ls₁, ls₂, rfl, hls₁, hls₂⟩ := List.map_eq_append_iff.mp hrest
      obtain ⟨e', he', hsame⟩ := hcarry ls₁ hls₁
      obtain ⟨es', hes', hsames⟩ := hcarries ls₂ hls₂
      exact ⟨(op, e') :: es', RunRest.cons (hl'.trans hsign) hop he' hes',
        List.Forall₂.cons ⟨rfl, hsame⟩ hsames⟩

theorem Carries.run (h : CarriesExpr rename L L') (tier : Tier) :
    CarriesExpr rename (Run tier L) (Run tier L') := by
  rintro _ _ @⟨ls, ks, e, es, hfirst, hrest⟩
  obtain ⟨ts, hts, hcarry⟩ := h ls e hfirst
  obtain ⟨us, hus, hcarries⟩ := h.runRest tier ks es hrest
  refine ⟨ts ++ us, ?_, fun ls' hls' => ?_⟩
  · rw [edits_mkRun]
    exact hts.append hus
  · obtain ⟨ls₁, ls₂, rfl, hls₁, hls₂⟩ := List.map_eq_append_iff.mp hls'
    obtain ⟨e', he', hsame⟩ := hcarry ls₁ hls₁
    obtain ⟨es', hes', hsames⟩ := hcarries ls₂ hls₂
    refine ⟨mkRun e' es', Run.mk he' hes', ?_⟩
    cases hsames with
    | nil => exact hsame
    | cons hp hps =>
      have hrun := respellRun_congr (List.Forall₂.cons hp hps)
      rw [Respells, mkRun, mkRun, bare, respell, respell, hrun]
      exact congrArg (binary · _) hsame

theorem Carries.logicalRest (h : CarriesExpr rename L L') (op : LogicalOp) :
    Carries (List.flatMap (edits rename)) (List.Forall₂ (Respells rename))
      (LogicalRest op L) (LogicalRest op L') := by
  intro ls es hrun
  induction hrun with
  | nil =>
    refine ⟨[], Respelled.nil, fun ls' hls' => ?_⟩
    rw [List.map_eq_nil_iff.mp hls']
    exact ⟨[], LogicalRest.nil, List.Forall₂.nil⟩
  | @cons l ls ks e es hsign hoperand _ ih =>
    obtain ⟨ts, hts, hcarry⟩ := h ls e hoperand
    obtain ⟨us, hus, hcarries⟩ := ih
    refine ⟨l.token :: ts ++ us, ?_, fun ls' hls' => ?_⟩
    · rw [List.flatMap_cons]
      exact Respelled.keep (hts.append hus)
    · obtain ⟨l', ls', rfl, hl', hrest⟩ := List.map_eq_cons_iff.mp hls'
      obtain ⟨ls₁, ls₂, rfl, hls₁, hls₂⟩ := List.map_eq_append_iff.mp hrest
      obtain ⟨e', he', hsame⟩ := hcarry ls₁ hls₁
      obtain ⟨es', hes', hsames⟩ := hcarries ls₂ hls₂
      exact ⟨e' :: es', LogicalRest.cons (hl'.trans hsign) he' hes', List.Forall₂.cons hsame hsames⟩

theorem Carries.logicalRun (h : CarriesExpr rename L L') (op : LogicalOp) :
    CarriesExpr rename (LogicalRun op L) (LogicalRun op L') := by
  rintro _ _ @⟨ls, ks, e, es, hfirst, hrest⟩
  obtain ⟨ts, hts, hcarry⟩ := h ls e hfirst
  obtain ⟨us, hus, hcarries⟩ := h.logicalRest op ks es hrest
  refine ⟨ts ++ us, ?_, fun ls' hls' => ?_⟩
  · rw [edits_mkLogical]
    exact hts.append hus
  · obtain ⟨ls₁, ls₂, rfl, hls₁, hls₂⟩ := List.map_eq_append_iff.mp hls'
    obtain ⟨e', he', hsame⟩ := hcarry ls₁ hls₁
    obtain ⟨es', hes', hsames⟩ := hcarries ls₂ hls₂
    refine ⟨mkLogical op e' es', LogicalRun.mk he' hes', ?_⟩
    cases hsames with
    | nil => exact hsame
    | cons hp hps =>
      have hlist := respellList_congr (List.Forall₂.cons hsame (List.Forall₂.cons hp hps))
      rw [Respells, mkLogical, mkLogical, bare, respell, respell, hlist]

end Runs

/-! ### Names -/

theorem notMem_constantNames_of_isIdentifier {s : String} (h : Token.isIdentifier s = true) :
    s ∉ Token.constantNames := by
  obtain ⟨-, -, -, -, -, hliteral, -⟩ := Token.isIdentifier_iff.mp h
  simp only [Token.literalNames, List.mem_cons, not_or] at hliteral
  simp only [Token.constantNames, List.mem_cons, not_or]
  exact hliteral.2.2.2.2

theorem Respells.ident {s : String} (span span' : Span) :
    Respells rename (ident s span) (ident (newName rename s) span') := by
  rfl

variable (hrename : ∀ n m, rename n = some m → Token.isIdentifier m = true)
include hrename

/-- A name is carried over: it is kept, or its new spelling stands in its place. -/
theorem name_carries {l : Lexeme} {s : String} (hl : l.token = .name s) :
    Respelled [l] ((ident s ⟨l.start, l.stop⟩).edits rename) [.name (newName rename s)] := by
  rw [edits, nameEdits, newName]
  cases hs : rename s with
  | none =>
    rw [Option.getD_none, ← hl]
    exact Respelled.keep Respelled.nil
  | some m =>
    have hspells := Spells.name (Token.isWord_of_isIdentifier (hrename s m hs))
    exact Respelled.edit hl (fun _ => hspells) Respelled.nil

theorem atom_carries {l : Lexeme} {e : Expr} (h : IsAtom l e) :
    ∃ t, Respelled [l] (e.edits rename) [t] ∧
      ∀ l', l'.token = t → ∃ e', IsAtom l' e' ∧ Respells rename e e' := by
  -- all atoms but references are kept
  have hkept : ∀ c : Expr, (∀ f, c.edits f = [] ∧ c.respell f = c) →
      (∀ l' : Lexeme, l'.token = l.token → IsAtom l' c) →
      ∃ t, Respelled [l] (c.edits rename) [t] ∧
        ∀ l', l'.token = t → ∃ e', IsAtom l' e' ∧ Respells rename c e' := by
    intro c hc hatom
    refine ⟨l.token, ?_, fun l' hl' => ⟨c, hatom l' hl', ?_⟩⟩
    · rw [(hc rename).1]
      exact Respelled.keep Respelled.nil
    · rw [Respells, bare, (hc _).2, (hc rename).2]
  cases h with
  | number htoken => exact hkept _ (fun _ => ⟨rfl, rfl⟩) fun l' hl' => .number (hl'.trans htoken)
  | text htoken => exact hkept _ (fun _ => ⟨rfl, rfl⟩) fun l' hl' => .text (hl'.trans htoken)
  | trueWord htoken =>
    exact hkept _ (fun _ => ⟨rfl, rfl⟩) fun l' hl' => .trueWord (hl'.trans htoken)
  | falseWord htoken =>
    exact hkept _ (fun _ => ⟨rfl, rfl⟩) fun l' hl' => .falseWord (hl'.trans htoken)
  | nullWord htoken =>
    exact hkept _ (fun _ => ⟨rfl, rfl⟩) fun l' hl' => .nullWord (hl'.trans htoken)
  | undefined htoken =>
    exact hkept _ (fun _ => ⟨rfl, rfl⟩) fun l' hl' => .undefined (hl'.trans htoken)
  | nan htoken => exact hkept _ (fun _ => ⟨rfl, rfl⟩) fun l' hl' => .nan (hl'.trans htoken)
  | infinity htoken =>
    exact hkept _ (fun _ => ⟨rfl, rfl⟩) fun l' hl' => .infinity (hl'.trans htoken)
  | @reference s htoken hname =>
    have hname' : newName rename s ∉ Token.constantNames := by
      rw [newName]
      cases hs : rename s with
      | none => exact hname
      | some m => exact notMem_constantNames_of_isIdentifier (hrename s m hs)
    exact ⟨_, name_carries hrename htoken,
      fun l' hl' => ⟨_, .reference hl' hname', Respells.ident _ _⟩⟩

omit hrename

/-! ### Levels -/

variable (rename) in
/-- The links of the one language are carried over to the other, whatever has gone before them. -/
def CarriesLink (L L' : Nat → Expr → Lang Expr) : Prop :=
  ∀ start target ls e, L start target ls e → ∃ es ts, e.edits rename = target.edits rename ++ es ∧
    Respelled ls es ts ∧ ∀ start' target' ls', Respells rename target target' →
      ls'.map Lexeme.token = ts → ∃ e', L' start' target' ls' e' ∧ Respells rename e e'

variable (rename) in
/-- What is derived one level deeper is carried over, and in the other grammar a name is derived
there. -/
structure CarriesBelow (D D' : Production → Lang Expr) : Prop where
  conditional : CarriesExpr rename (D .conditional) (D' .conditional)
  power : CarriesExpr rename (D .power) (D' .power)
  unary : CarriesExpr rename (D .unary) (D' .unary)
  link : CarriesLink rename (fun start target => D (.link start target))
    fun start target => D' (.link start target)
  name : ∀ l e, IsAtom l e → D' .conditional [l] e

section Levels

variable {D D' : Production → Lang Expr}

theorem chain_carries (hD : CarriesBelow rename D D') :
    CarriesLink rename (Chain D) (Chain D') := by
  intro start target ls e h
  cases h with
  | stop =>
    refine ⟨[], [], (List.append_nil _).symm, Respelled.nil,
      fun start' target' ls' htarget hls' => ?_⟩
    rw [List.map_eq_nil_iff.mp hls']
    exact ⟨target', Chain.stop, htarget⟩
  | link hlink =>
    obtain ⟨es, ts, hedits, hts, hcarry⟩ := hD.link start target ls e hlink
    refine ⟨es, ts, hedits, hts, fun start' target' ls' htarget hls' => ?_⟩
    obtain ⟨e', he', hsame⟩ := hcarry start' target' ls' htarget hls'
    exact ⟨e', Chain.link he', hsame⟩

theorem link_carries (hD : CarriesBelow rename D D') : CarriesLink rename (Link D) (Link D') := by
  intro start target ls e h
  cases h with
  | @member dot l property ls e hdot hproperty hrest =>
    obtain ⟨es, ts, hedits, hts, hcarry⟩ := chain_carries hD start _ ls e hrest
    refine ⟨es, dot.token :: l.token :: ts, hedits, Respelled.keep (Respelled.keep hts),
      fun start' target' ls' htarget hls' => ?_⟩
    obtain ⟨dot', ls', rfl, hdot', hls'⟩ := List.map_eq_cons_iff.mp hls'
    obtain ⟨l', ls', rfl, hl', hls'⟩ := List.map_eq_cons_iff.mp hls'
    have hmember : Respells rename (member target property ⟨start, l.stop⟩)
        (member target' property ⟨start', l'.stop⟩) :=
      congrArg (member · property ⟨0, 0⟩) htarget
    obtain ⟨e', he', hsame⟩ := hcarry start' _ ls' hmember hls'
    rw [← hl'] at hproperty
    exact ⟨e', Link.member (hdot'.trans hdot) hproperty he', hsame⟩
  | @index opening closing ks ls key e hopening hkey hclosing hrest =>
    obtain ⟨us, hus, hcarryKey⟩ := hD.conditional ks key hkey
    obtain ⟨es, ts, hedits, hts, hcarry⟩ := chain_carries hD start _ ls e hrest
    refine ⟨key.edits rename ++ es, opening.token :: us ++ closing.token :: ts, ?_,
      Respelled.keep (hus.append (Respelled.keep hts)), fun start' target' ls' htarget hls' => ?_⟩
    · rw [hedits, edits, List.append_assoc]
    · obtain ⟨ls₁, ls₂, rfl, hls₁, hls₂⟩ := List.map_eq_append_iff.mp hls'
      obtain ⟨opening', ks', rfl, hopening', hks'⟩ := List.map_eq_cons_iff.mp hls₁
      obtain ⟨closing', ls', rfl, hclosing', hls'⟩ := List.map_eq_cons_iff.mp hls₂
      obtain ⟨key', hkey', hsameKey⟩ := hcarryKey ks' hks'
      have hindex : Respells rename (index target key) (index target' key') :=
        congrArg₂ index htarget hsameKey
      obtain ⟨e', he', hsame⟩ := hcarry start' _ ls' hindex hls'
      exact ⟨e', Link.index (hopening'.trans hopening) hkey' (hclosing'.trans hclosing) he', hsame⟩
  | @call opening closing ks ls args e hopening hargs hclosing hrest =>
    obtain ⟨us, hus, hcarryArgs⟩ := hD.conditional.separated ks args hargs
    obtain ⟨es, ts, hedits, hts, hcarry⟩ := chain_carries hD start _ ls e hrest
    refine ⟨args.flatMap (edits rename) ++ es, opening.token :: us ++ closing.token :: ts, ?_,
      Respelled.keep (hus.append (Respelled.keep hts)), fun start' target' ls' htarget hls' => ?_⟩
    · rw [hedits, edits, listEdits_eq_flatMap, List.append_assoc]
    · obtain ⟨ls₁, ls₂, rfl, hls₁, hls₂⟩ := List.map_eq_append_iff.mp hls'
      obtain ⟨opening', ks', rfl, hopening', hks'⟩ := List.map_eq_cons_iff.mp hls₁
      obtain ⟨closing', ls', rfl, hclosing', hls'⟩ := List.map_eq_cons_iff.mp hls₂
      obtain ⟨args', hargs', hsameArgs⟩ := hcarryArgs ks' hks'
      have hcall : Respells rename (call target args) (call target' args') :=
        congrArg₂ call htarget (respellList_congr hsameArgs)
      obtain ⟨e', he', hsame⟩ := hcarry start' _ ls' hcall hls'
      exact ⟨e', Link.call (hopening'.trans hopening) hargs' (hclosing'.trans hclosing) he', hsame⟩

theorem respellKey_of_not_shorthand (key : String) (e : Expr) :
    respellKey rename ⟨key, false⟩ e = ⟨key, false⟩ := by
  cases e <;> rfl

section Names

variable (hrename : ∀ n m, rename n = some m → Token.isIdentifier m = true)
include hrename

theorem entry_carries (hD : CarriesBelow rename D D') :
    Carries (entryEdit rename) (RespellsEntry rename) (Entry D) (Entry D') := by
  intro ls a h
  cases h with
  | @keyed l colon key ls e hkey hcolon hvalue =>
    obtain ⟨ts, hts, hcarry⟩ := hD.conditional ls e hvalue
    refine ⟨l.token :: colon.token :: ts, Respelled.keep (Respelled.keep hts), fun ls' hls' => ?_⟩
    obtain ⟨l', ls', rfl, hl', hls'⟩ := List.map_eq_cons_iff.mp hls'
    obtain ⟨colon', ls', rfl, hcolon', hls'⟩ := List.map_eq_cons_iff.mp hls'
    obtain ⟨e', he', hsame⟩ := hcarry ls' hls'
    rw [← hl'] at hkey
    refine ⟨(⟨key, false⟩, e'), Entry.keyed hkey (hcolon'.trans hcolon) he', ?_, hsame⟩
    dsimp only
    rw [respellKey_of_not_shorthand, respellKey_of_not_shorthand]
  | @shorthand l s hname =>
    have hedits : entryEdit rename (⟨s, true⟩, ident s ⟨l.start, l.stop⟩) =
        shorthandEdits rename s s ⟨l.start, l.stop⟩ := rfl
    rw [hedits, shorthandEdits]
    cases hs : rename s with
    | none =>
      refine ⟨[l.token], Respelled.keep Respelled.nil, fun ls' hls' => ?_⟩
      obtain ⟨l', ls', rfl, hl', hnil⟩ := List.map_eq_cons_iff.mp hls'
      rw [List.map_eq_nil_iff.mp hnil]
      refine ⟨_, Entry.shorthand (hl'.trans hname), ?_, ?_⟩
      · simp [respellKey, hs]
      · simp [Respells, bare, respell, newName, hs]
    | some m =>
      have hm := hrename s m hs
      have hspells : Token.IsWord s → Spells (s.toList ++ [':', ' '] ++ m.toList)
          [.name s, .symbol .colon, .name m] :=
        fun hword => Spells.entry hword (Spells.name (Token.isWord_of_isIdentifier hm))
      refine ⟨_, Respelled.edit hname hspells Respelled.nil, fun ls' hls' => ?_⟩
      obtain ⟨l₁, ls₁, rfl, hl₁, hls₁⟩ := List.map_eq_cons_iff.mp hls'
      obtain ⟨l₂, ls₂, rfl, hl₂, hls₂⟩ := List.map_eq_cons_iff.mp hls₁
      obtain ⟨l₃, ls₃, rfl, hl₃, hls₃⟩ := List.map_eq_cons_iff.mp hls₂
      rw [List.map_eq_nil_iff.mp hls₃]
      have hatom : IsAtom l₃ (ident m ⟨l₃.start, l₃.stop⟩) :=
        .reference hl₃ (notMem_constantNames_of_isIdentifier hm)
      have hkey : IsEntryKey l₁.token s := by
        rw [hl₁]
        exact .property (.name s)
      refine ⟨_, Entry.keyed hkey hl₂ (hD.name l₃ _ hatom), ?_, ?_⟩
      · simp [respellKey, hs]
      · simp [Respells, bare, respell, newName, hs]

theorem primary_carries (hD : CarriesBelow rename D D') :
    CarriesExpr rename (Primary D) (Primary D') := by
  intro ls e h
  cases h with
  | @atom l e hatom =>
    obtain ⟨t, ht, hcarry⟩ := atom_carries hrename hatom
    refine ⟨[t], ht, fun ls' hls' => ?_⟩
    obtain ⟨l', ls', rfl, hl', hnil⟩ := List.map_eq_cons_iff.mp hls'
    rw [List.map_eq_nil_iff.mp hnil]
    obtain ⟨e', he', hsame⟩ := hcarry l' hl'
    exact ⟨e', Primary.atom he', hsame⟩
  | @group opening closing ls e hopening hinner hclosing =>
    obtain ⟨ts, hts, hcarry⟩ := hD.conditional ls e hinner
    refine ⟨_, hts.bracket opening closing, fun ls' hls' => ?_⟩
    obtain ⟨opening', ls', closing', rfl, hopening', hls', hclosing'⟩ := exists_bracket hls'
    obtain ⟨e', he', hsame⟩ := hcarry ls' hls'
    exact ⟨e', Primary.group (hopening'.trans hopening) he' (hclosing'.trans hclosing), hsame⟩
  | @array opening closing ls es hopening hitems hclosing =>
    obtain ⟨ts, hts, hcarry⟩ := hD.conditional.separated ls es hitems
    rw [← listEdits_eq_flatMap] at hts
    refine ⟨_, hts.bracket opening closing, fun ls' hls' => ?_⟩
    obtain ⟨opening', ls', closing', rfl, hopening', hls', hclosing'⟩ := exists_bracket hls'
    obtain ⟨es', hes', hsame⟩ := hcarry ls' hls'
    exact ⟨array es', Primary.array (hopening'.trans hopening) hes' (hclosing'.trans hclosing),
      congrArg array (respellList_congr hsame)⟩
  | @object opening closing ls es hopening hentries hclosing =>
    obtain ⟨ts, hts, hcarry⟩ := (entry_carries hrename hD).separated ls es hentries
    rw [← entryEdits_eq_flatMap] at hts
    refine ⟨_, hts.bracket opening closing, fun ls' hls' => ?_⟩
    obtain ⟨opening', ls', closing', rfl, hopening', hls', hclosing'⟩ := exists_bracket hls'
    obtain ⟨es', hes', hsame⟩ := hcarry ls' hls'
    exact ⟨object es', Primary.object (hopening'.trans hopening) hes' (hclosing'.trans hclosing),
      congrArg object (respellEntries_congr hsame)⟩

theorem chained_carries (hD : CarriesBelow rename D D') :
    CarriesExpr rename (Chained D) (Chained D') := by
  intro ls e h
  obtain @⟨l, ls, ks, target, e, hprimary, hchain⟩ := h
  obtain ⟨ts, hts, hcarry⟩ := primary_carries hrename hD (l :: ls) target hprimary
  obtain ⟨es, us, hedits, hus, hcarryChain⟩ := chain_carries hD l.start target ks e hchain
  refine ⟨ts ++ us, ?_, fun ls' hls' => ?_⟩
  · rw [hedits]
    exact hts.append hus
  · obtain ⟨ls₁, ls₂, rfl, hls₁, hls₂⟩ := List.map_eq_append_iff.mp hls'
    obtain ⟨target', htarget', hsameTarget⟩ := hcarry ls₁ hls₁
    obtain ⟨l', ls₁, rfl⟩ := htarget'.exists_cons
    obtain ⟨e', he', hsame⟩ := hcarryChain l'.start target' ls₂ hsameTarget hls₂
    exact ⟨e', Chained.mk htarget' he', hsame⟩

theorem signed_carries (hD : CarriesBelow rename D D') :
    CarriesExpr rename (Signed D) (Signed D') := by
  intro ls e h
  cases h with
  | @unary l op ls e hop hoperand =>
    obtain ⟨ts, hts, hcarry⟩ := hD.unary ls e hoperand
    refine ⟨l.token :: ts, Respelled.keep hts, fun ls' hls' => ?_⟩
    obtain ⟨l', ls', rfl, hl', hls'⟩ := List.map_eq_cons_iff.mp hls'
    obtain ⟨e', he', hsame⟩ := hcarry ls' hls'
    exact ⟨unary op e', Signed.unary (hl'.trans hop) he', congrArg (unary op) hsame⟩
  | chained hchained =>
    exact (chained_carries hrename hD).mono (fun _ _ => Signed.chained) ls e hchained

theorem power_carries (hD : CarriesBelow rename D D') :
    CarriesExpr rename (Power D) (Power D') := by
  intro ls e h
  cases h with
  | signed hsigned => exact (signed_carries hrename hD).mono (fun _ _ => Power.signed) ls e hsigned
  | @power op ls ks base e hbase hop hexponent =>
    obtain ⟨ts, hts, hcarry⟩ := chained_carries hrename hD ls base hbase
    obtain ⟨us, hus, hcarryExponent⟩ := hD.power ks e hexponent
    refine ⟨ts ++ op.token :: us, ?_, fun ls' hls' => ?_⟩
    · rw [edits, runEdits, runEdits, List.append_nil]
      exact hts.append (Respelled.keep hus)
    · obtain ⟨ls₁, ls₂, rfl, hls₁, hls₂⟩ := List.map_eq_append_iff.mp hls'
      obtain ⟨op', ks', rfl, hop', hks'⟩ := List.map_eq_cons_iff.mp hls₂
      obtain ⟨base', hbase', hsameBase⟩ := hcarry ls₁ hls₁
      obtain ⟨e', he', hsame⟩ := hcarryExponent ks' hks'
      exact ⟨_, Power.power hbase' (hop'.trans hop) he',
        congrArg₂ (fun b x => binary b [(.power, x)]) hsameBase hsame⟩

theorem choice_carries (hD : CarriesBelow rename D D') :
    CarriesExpr rename (Choice D) (Choice D') := by
  have hcoalescence : CarriesExpr rename (Coalescence D) (Coalescence D') :=
    (((((((power_carries hrename hD).run _).run _).run _).run _).logicalRun _).logicalRun
      _).logicalRun _
  intro ls e h
  cases h with
  | test htest => exact hcoalescence.mono (fun _ _ => Choice.test) ls e htest
  | @conditional question colon ls ms ns test consequent alternate htest hquestion
      hconsequent hcolon
      halternate =>
    obtain ⟨ts, hts, hcarryTest⟩ := hcoalescence ls test htest
    obtain ⟨us, hus, hcarryConsequent⟩ := hD.conditional ms consequent hconsequent
    obtain ⟨vs, hvs, hcarryAlternate⟩ := hD.conditional ns alternate halternate
    refine ⟨ts ++ question.token :: us ++ colon.token :: vs,
      (hts.append (Respelled.keep hus)).append (Respelled.keep hvs), fun ls' hls' => ?_⟩
    obtain ⟨ls₁, ls₂, rfl, hls₁, hls₂⟩ := List.map_eq_append_iff.mp hls'
    obtain ⟨ls₀, ls₁, rfl, hls₀, hls₁⟩ := List.map_eq_append_iff.mp hls₁
    obtain ⟨question', ms', rfl, hquestion', hms'⟩ := List.map_eq_cons_iff.mp hls₁
    obtain ⟨colon', ns', rfl, hcolon', hns'⟩ := List.map_eq_cons_iff.mp hls₂
    obtain ⟨test', htest', hsameTest⟩ := hcarryTest ls₀ hls₀
    obtain ⟨consequent', hconsequent', hsameConsequent⟩ := hcarryConsequent ms' hms'
    obtain ⟨alternate', halternate', hsameAlternate⟩ := hcarryAlternate ns' hns'
    refine ⟨_,
      Choice.conditional htest' (hquestion'.trans hquestion) hconsequent' (hcolon'.trans hcolon)
      halternate', ?_⟩
    rw [Respells, bare, respell, respell]
    exact congr (congrArg₂ conditional hsameTest hsameConsequent) hsameAlternate

end Names

end Levels

theorem Choice.of_atom {D : Production → Lang Expr} {l : Lexeme} {e : Expr} (h : IsAtom l e) :
    Choice D [l] e := by
  have hchained : Chained D ([l] ++ []) e := Chained.mk (Primary.atom h) Chain.stop
  have hpower : Power D [l] e := Power.signed (Signed.chained hchained)
  have hproduct : Product D ([l] ++ []) e := Run.mk hpower RunRest.nil
  have hsum : Sum D ([l] ++ []) e := Run.mk hproduct RunRest.nil
  have hrelation : Relation D ([l] ++ []) e := Run.mk hsum RunRest.nil
  have hequality : Equality D ([l] ++ []) e := Run.mk hrelation RunRest.nil
  have hconjunction : Conjunction D ([l] ++ []) e := LogicalRun.mk hequality LogicalRest.nil
  have hdisjunction : Disjunction D ([l] ++ []) e := LogicalRun.mk hconjunction LogicalRest.nil
  have hcoalescence : Coalescence D ([l] ++ []) e := LogicalRun.mk hdisjunction LogicalRest.nil
  exact Choice.test hcoalescence

theorem derives_carries (hrename : ∀ n m, rename n = some m → Token.isIdentifier m = true)
    (room : Nat) : CarriesBelow rename (Derives room) (Derives (room + 1)) := by
  induction room with
  | zero =>
    exact {
      conditional := fun _ _ h => h.elim
      power := fun _ _ h => h.elim
      unary := fun _ _ h => h.elim
      link := fun _ _ _ _ h => h.elim
      name := fun _ _ h => Choice.of_atom h }
  | succ room ih =>
    exact {
      conditional := choice_carries hrename ih
      power := power_carries hrename ih
      unary := signed_carries hrename ih
      link := link_carries ih
      name := fun _ _ h => Choice.of_atom h }

/-- **The text of an expression with other names is parsed as the expression with these names**,
with room for one more level of nesting. -/
theorem parse_renameIn (hrename : ∀ n m, rename n = some m → Token.isIdentifier m = true)
    {limit : Nat} {source : String} {e : Expr} (h : parse limit source = .ok e) :
    ∃ e', parse (limit + 1) (renameIn rename source e) = .ok e' ∧ Respells rename e e' := by
  rcases parse_eq_ok_iff.mp h with ⟨hblank, rfl⟩ | ⟨hblank, ls, stop, hlexed, hderives⟩
  · refine ⟨empty, ?_, rfl⟩
    have hsame : renameIn rename source empty = source := String.ofList_toList
    rw [hsame]
    exact parse_of_allBlank hblank
  · obtain ⟨ts, hts, hcarry⟩ := (derives_carries hrename limit).conditional ls e hderives
    obtain ⟨ls', stop', hlexed', hls', -⟩ := hlexed.splice hts 0
    obtain ⟨e', he', hsame⟩ := hcarry ls' hls'
    refine ⟨e', parse_eq_ok_iff.mpr (Or.inr ⟨?_, ls', stop', ?_, he'⟩), hsame⟩
    · rw [renameIn, String.toList_ofList, ← Bool.not_eq_true, ← hlexed'.ne_nil_of_not_allBlank]
      rintro rfl
      obtain ⟨l, ks, hnil, -⟩ := begins_choice [] e' he'
      cases hnil
    · rw [renameIn, String.toList_ofList]
      exact hlexed'

end FormulaSheet.Expr
