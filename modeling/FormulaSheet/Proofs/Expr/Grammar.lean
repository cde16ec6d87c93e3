import FormulaSheet.Expr.Parser

/-!
# The grammar of expressions

How operators and words are written, and which lists of lexemes stand for which expressions, level
by level from the tightest to the loosest, with `D p` for what the production `p` stands for one
level deeper. `Derives` ties the knot: it counts the room for nesting down as reading does. Nothing
here says how a list of lexemes is read, and no operator or word is looked up in the tables of
reading: that these have the same ones is a fact about them (`Tier.op?_eq_some_iff`,
`Expr.unaryOp?_eq_some_iff`, `Expr.propertyName?_eq_some_iff`).
-/

namespace FormulaSheet

/-! ### Operators -/

/-- How an operator with two operands is written. -/
def BinaryOp.sign : BinaryOp → Symbol
  | .add => .plus
  | .subtract => .minus
  | .multiply => .star
  | .divide => .slash
  | .remainder => .percent
  | .power => .starStar
  | .equal => .equal
  | .notEqual => .notEqual
  | .strictEqual => .strictEqual
  | .strictNotEqual => .strictNotEqual
  | .less => .less
  | .lessEqual => .lessEqual
  | .greater => .greater
  | .greaterEqual => .greaterEqual

/-- How a logical operator is written. -/
def LogicalOp.sign : LogicalOp → Symbol
  | .nullish => .nullish
  | .or => .orOr
  | .and => .andAnd

/-- How an operator with one operand is written: three are symbols, one is a word. -/
def UnaryOp.token : UnaryOp → Token
  | .negate => .symbol .minus
  | .plus => .symbol .plus
  | .not => .symbol .bang
  | .typeOf => .typeofWord

/-- The runs of operators with two operands that are always evaluated, from the loosest to the
tightest. -/
inductive Tier where
  | equality | relation | sum | product
deriving DecidableEq, Repr

/-- The operators of a tier. -/
def Tier.operators : Tier → List BinaryOp
  | .equality => [.equal, .notEqual, .strictEqual, .strictNotEqual]
  | .relation => [.less, .lessEqual, .greater, .greaterEqual]
  | .sum => [.add, .subtract]
  | .product => [.multiply, .divide, .remainder]

/-! ### Words -/

/-- The names that are read as constants where they stand as expressions of their own. -/
def Token.constantNames : List String := ["undefined", "NaN", "Infinity"]

namespace Expr

/-- The token stands for a word as the name of a property: any name does, and any reserved word. -/
inductive IsPropertyName : Token → String → Prop where
  | name (s : String) : IsPropertyName (.name s) s
  | keyword (word : String) : IsPropertyName (.keyword word) word
  | trueWord : IsPropertyName .trueWord "true"
  | falseWord : IsPropertyName .falseWord "false"
  | nullWord : IsPropertyName .nullWord "null"
  | typeofWord : IsPropertyName .typeofWord "typeof"

/-- The token stands for a key before the colon of an entry. A number is the key that is its text in
a cell. -/
inductive IsEntryKey : Token → String → Prop where
  | text (s : String) : IsEntryKey (.text s) s
  | number (x : Float) : IsEntryKey (.number x) (Decimal.cellText x)
  | property {t : Token} {s : String} (hproperty : IsPropertyName t s) : IsEntryKey t s

/-- The lexeme stands for an expression by itself. A name is a reference to it unless it is that of
a constant. -/
inductive IsAtom (l : Lexeme) : Expr → Prop where
  | number {x : Float} (htoken : l.token = .number x) : IsAtom l (number x)
  | text {s : String} (htoken : l.token = .text s) : IsAtom l (text s)
  | trueWord (htoken : l.token = .trueWord) : IsAtom l (boolean true)
  | falseWord (htoken : l.token = .falseWord) : IsAtom l (boolean false)
  | nullWord (htoken : l.token = .nullWord) : IsAtom l null
  | undefined (htoken : l.token = .name "undefined") : IsAtom l undefined
  | nan (htoken : l.token = .name "NaN") : IsAtom l (number (0.0 / 0.0))
  | infinity (htoken : l.token = .name "Infinity") : IsAtom l (number (1.0 / 0.0))
  | reference {s : String} (htoken : l.token = .name s) (hname : s ∉ Token.constantNames) :
      IsAtom l (ident s ⟨l.start, l.stop⟩)

/-! ### Languages -/

/-- Which lists of lexemes stand for which values. -/
abbrev Lang (α : Type) := List Lexeme → α → Prop

/-- A run of operands, which is the first one where no other follows. -/
def mkRun (first : Expr) : List (BinaryOp × Expr) → Expr
  | [] => first
  | second :: rest => binary first (second :: rest)

/-- A run of one logical operator, which is the first operand where no other follows. -/
def mkLogical (op : LogicalOp) (first : Expr) : List Expr → Expr
  | [] => first
  | second :: rest => logical op (first :: second :: rest)

/-- Values with commas between them; a comma may follow the last one. -/
inductive Separated {α : Type} (item : Lang α) : List Lexeme → List α → Prop where
  | nil : Separated item [] []
  | last {ls : List Lexeme} {a : α} (hitem : item ls a) : Separated item ls [a]
  | cons {ls ks : List Lexeme} {comma : Lexeme} {a : α} {as : List α} (hitem : item ls a)
      (hcomma : comma.token = .symbol .comma) (hrest : Separated item ks as) :
      Separated item (ls ++ comma :: ks) (a :: as)

/-- The operators and operands after the first one of a run. -/
inductive RunRest (tier : Tier) (operand : Lang Expr) :
    List Lexeme → List (BinaryOp × Expr) → Prop where
  | nil : RunRest tier operand [] []
  | cons {l : Lexeme} {op : BinaryOp} {ls ks : List Lexeme} {e : Expr} {es : List (BinaryOp × Expr)}
      (hsign : l.token = .symbol op.sign) (hop : op ∈ tier.operators) (hoperand : operand ls e)
      (hrest : RunRest tier operand ks es) : RunRest tier operand (l :: ls ++ ks) ((op, e) :: es)

/-- A run of the operators of a tier. -/
inductive Run (tier : Tier) (operand : Lang Expr) : List Lexeme → Expr → Prop where
  | mk {ls ks : List Lexeme} {e : Expr} {es : List (BinaryOp × Expr)} (hfirst : operand ls e)
      (hrest : RunRest tier operand ks es) : Run tier operand (ls ++ ks) (mkRun e es)

/-- The operands after the first one of a run of a logical operator. -/
inductive LogicalRest (op : LogicalOp) (operand : Lang Expr) : List Lexeme → List Expr → Prop where
  | nil : LogicalRest op operand [] []
  | cons {l : Lexeme} {ls ks : List Lexeme} {e : Expr} {es : List Expr}
      (hsign : l.token = .symbol op.sign) (hoperand : operand ls e)
      (hrest : LogicalRest op operand ks es) : LogicalRest op operand (l :: ls ++ ks) (e :: es)

/-- A run of one logical operator. -/
inductive LogicalRun (op : LogicalOp) (operand : Lang Expr) : List Lexeme → Expr → Prop where
  | mk {ls ks : List Lexeme} {e : Expr} {es : List Expr} (hfirst : operand ls e)
      (hrest : LogicalRest op operand ks es) : LogicalRun op operand (ls ++ ks) (mkLogical op e es)

section Levels

variable (D : Production → Lang Expr)

/-- An entry of an object. -/
inductive Entry : List Lexeme → EntryKey × Expr → Prop where
  | keyed {l colon : Lexeme} {key : String} {ls : List Lexeme} {e : Expr}
      (hkey : IsEntryKey l.token key) (hcolon : colon.token = .symbol .colon)
      (hvalue : D .conditional ls e) : Entry (l :: colon :: ls) (⟨key, false⟩, e)
  | shorthand {l : Lexeme} {s : String} (hname : l.token = .name s) :
      Entry [l] (⟨s, true⟩, ident s ⟨l.start, l.stop⟩)

/-- A literal, a name, a group, a list or an object. -/
inductive Primary : List Lexeme → Expr → Prop where
  | atom {l : Lexeme} {e : Expr} (hatom : IsAtom l e) : Primary [l] e
  | group {opening closing : Lexeme} {ls : List Lexeme} {e : Expr}
      (hopen : opening.token = .symbol .parenOpen) (hinner : D .conditional ls e)
      (hclose : closing.token = .symbol .parenClose) : Primary (opening :: ls ++ [closing]) e
  | array {opening closing : Lexeme} {ls : List Lexeme} {es : List Expr}
      (hopen : opening.token = .symbol .bracketOpen) (hitems : Separated (D .conditional) ls es)
      (hclose : closing.token = .symbol .bracketClose) :
      Primary (opening :: ls ++ [closing]) (array es)
  | object {opening closing : Lexeme} {ls : List Lexeme} {es : List (EntryKey × Expr)}
      (hopen : opening.token = .symbol .braceOpen) (hentries : Separated (Entry D) ls es)
      (hclose : closing.token = .symbol .braceClose) :
      Primary (opening :: ls ++ [closing]) (object es)

/-- What follows in a chain that has begun with `target` at `start`. -/
inductive Chain (start : Nat) (target : Expr) : List Lexeme → Expr → Prop where
  | stop : Chain start target [] target
  | link {ls : List Lexeme} {e : Expr} (hlink : D (.link start target) ls e) :
      Chain start target ls e

/-- A link of a chain, and what follows it. -/
inductive Link (start : Nat) (target : Expr) : List Lexeme → Expr → Prop where
  | member {dot l : Lexeme} {property : String} {ls : List Lexeme} {e : Expr}
      (hdot : dot.token = .symbol .dot) (hproperty : IsPropertyName l.token property)
      (hrest : Chain D start (member target property ⟨start, l.stop⟩) ls e) :
      Link start target (dot :: l :: ls) e
  | index {opening closing : Lexeme} {ks ls : List Lexeme} {key e : Expr}
      (hopen : opening.token = .symbol .bracketOpen) (hkey : D .conditional ks key)
      (hclose : closing.token = .symbol .bracketClose)
      (hrest : Chain D start (index target key) ls e) :
      Link start target (opening :: ks ++ closing :: ls) e
  | call {opening closing : Lexeme} {ks ls : List Lexeme} {args : List Expr} {e : Expr}
      (hopen : opening.token = .symbol .parenOpen) (hargs : Separated (D .conditional) ks args)
      (hclose : closing.token = .symbol .parenClose)
      (hrest : Chain D start (call target args) ls e) :
      Link start target (opening :: ks ++ closing :: ls) e

/-- A primary expression with the links that follow it. -/
inductive Chained : List Lexeme → Expr → Prop where
  | mk {l : Lexeme} {ls ks : List Lexeme} {e e' : Expr} (hprimary : Primary D (l :: ls) e)
      (hchain : Chain D l.start e ks e') : Chained (l :: ls ++ ks) e'

/-- Unary operators before an operand. -/
inductive Signed : List Lexeme → Expr → Prop where
  | unary {l : Lexeme} {op : UnaryOp} {ls : List Lexeme} {e : Expr} (hop : l.token = op.token)
      (hoperand : D .unary ls e) : Signed (l :: ls) (unary op e)
  | chained {ls : List Lexeme} {e : Expr} (hchained : Chained D ls e) : Signed ls e

/-- A power, whose base has no unary operator. -/
inductive Power : List Lexeme → Expr → Prop where
  | signed {ls : List Lexeme} {e : Expr} (hsigned : Signed D ls e) : Power ls e
  | power {op : Lexeme} {ls ks : List Lexeme} {base e : Expr} (hbase : Chained D ls base)
      (hop : op.token = .symbol .starStar) (hexponent : D .power ks e) :
      Power (ls ++ op :: ks) (binary base [(.power, e)])

/-- Products. -/
def Product : Lang Expr := Run .product (Power D)

/-- Sums. -/
def Sum : Lang Expr := Run .sum (Product D)

/-- Relations. -/
def Relation : Lang Expr := Run .relation (Sum D)

/-- Equalities. -/
def Equality : Lang Expr := Run .equality (Relation D)

/-- Conjunctions. -/
def Conjunction : Lang Expr := LogicalRun .and (Equality D)

/-- Disjunctions. -/
def Disjunction : Lang Expr := LogicalRun .or (Conjunction D)

/-- Runs of `??`. -/
def Coalescence : Lang Expr := LogicalRun .nullish (Disjunction D)

/-- A conditional, or what stands for its test alone. -/
inductive Choice : List Lexeme → Expr → Prop where
  | test {ls : List Lexeme} {e : Expr} (htest : Coalescence D ls e) : Choice ls e
  | conditional {question colon : Lexeme} {ls ms ns : List Lexeme}
      {test consequent alternate : Expr} (htest : Coalescence D ls test)
      (hquestion : question.token = .symbol .question) (hconsequent : D .conditional ms consequent)
      (hcolon : colon.token = .symbol .colon) (halternate : D .conditional ns alternate) :
      Choice (ls ++ question :: ms ++ colon :: ns) (conditional test consequent alternate)

/-- What a production stands for. -/
def Produces : Production → Lang Expr
  | .conditional => Choice D
  | .power => Power D
  | .unary => Signed D
  | .link start target => Link D start target

end Levels

/-- The lexemes stand for an expression of a production in which at most `room` levels nest. -/
def Derives : Nat → Production → Lang Expr
  | 0 => fun _ _ _ => False
  | room + 1 => Produces (Derives room)

end Expr

end FormulaSheet
