import FormulaSheet.Proofs.Expr.Nodes
import FormulaSheet.Proofs.Expr.Parse
import Mathlib.Order.Bounds.Defs

/-!
# How high the trees of parsed texts are

A limit for nesting bounds the height of what is parsed, though not by a multiple of itself. Ten
more nodes can stand on a path for each level: one for each level of operators, and a list or an
object. But the links of a chain are counted from the level of the chain on, however high the
expression is that they begin with; so each level can add as many links as levels remain below it.
The greatest height, `Expr.maxHeight`, grows with the square of the limit
(`Expr.isGreatest_maxHeight`).
-/

namespace FormulaSheet.Expr

/-- The greatest height of an expression in which at most so many levels nest. -/
def maxHeight : Nat → Nat
  | 0 => 1
  | 1 => 9
  | room + 2 => maxHeight (room + 1) + room + 11

theorem one_le_maxHeight (room : Nat) : 1 ≤ maxHeight room := by
  unfold maxHeight
  split <;> omega

/-- One more level leaves room for one more link of a chain, and two more nodes. -/
theorem maxHeight_add_le (room : Nat) : maxHeight room + room + 2 ≤ maxHeight (room + 1) := by
  obtain _ | room := room
  · decide
  · rw [maxHeight]
    omega

theorem two_mul_maxHeight (room : Nat) :
    2 * maxHeight (room + 1) = room * room + 21 * room + 18 := by
  induction room with
  | zero => rfl
  | succ room ih =>
    rw [maxHeight]
    simp only [Nat.add_mul, Nat.mul_add]
    omega

theorem maxHeight_le_iff (limit : Nat) : maxHeight limit ≤ 10 * limit ↔ limit = 1 ∨ limit = 2 := by
  obtain _ | _ | _ | room := limit
  · decide
  · decide
  · decide
  · have hheight : 2 * maxHeight (room + 3) = (room + 2) * (room + 2) + 21 * (room + 2) + 18 :=
      two_mul_maxHeight (room + 2)
    have hsquare : (room + 2) * (room + 2) = room * room + 4 * room + 4 := by
      simp only [Nat.add_mul, Nat.mul_add]
      omega
    show maxHeight (room + 3) ≤ 10 * (room + 3) ↔ _
    omega

/-! ### An upper bound -/

theorem Separated.forall_mem {α : Type} {item : Lang α} {Q : α → Prop}
    (hitem : ∀ ls a, item ls a → Q a) {ls : List Lexeme} {as : List α} (h : Separated item ls as) :
    ∀ a ∈ as, Q a := by
  induction h with
  | nil => simp
  | last ha => simpa using hitem _ _ ha
  | cons ha _ _ ih => exact List.forall_mem_cons.mpr ⟨hitem _ _ ha, ih⟩

section Runs

variable {L : Lang Expr} {n : Nat} {ls : List Lexeme} {e : Expr}

/-- A run is one node on its operands. -/
theorem Run.height_le (hL : ∀ ls e, L ls e → e.height ≤ n) {tier : Tier} (h : Run tier L ls e) :
    e.height ≤ n + 1 := by
  obtain ⟨hfirst, hrest⟩ := h
  have hoperands : ∀ {ks es}, RunRest tier L ks es → ∀ e ∈ es.map Prod.snd, e.height ≤ n := by
    intro ks es hrest
    induction hrest with
    | nil => simp
    | cons _ _ hoperand _ ih => exact List.forall_mem_cons.mpr ⟨hL _ _ hoperand, ih⟩
  have he := hL _ _ hfirst
  have hes := hoperands hrest
  cases hrest with
  | nil => exact Nat.le_succ_of_le he
  | cons => exact height_le_succ (List.forall_mem_cons.mpr ⟨he, hes⟩)

theorem LogicalRun.height_le (hL : ∀ ls e, L ls e → e.height ≤ n) {op : LogicalOp}
    (h : LogicalRun op L ls e) : e.height ≤ n + 1 := by
  obtain ⟨hfirst, hrest⟩ := h
  have hoperands : ∀ {ks es}, LogicalRest op L ks es → ∀ e ∈ es, e.height ≤ n := by
    intro ks es hrest
    induction hrest with
    | nil => simp
    | cons _ hoperand _ ih => exact List.forall_mem_cons.mpr ⟨hL _ _ hoperand, ih⟩
  have he := hL _ _ hfirst
  have hes := hoperands hrest
  cases hrest with
  | nil => exact Nat.le_succ_of_le he
  | cons => exact height_le_succ (List.forall_mem_cons.mpr ⟨he, hes⟩)

end Runs

/-- What is derived one level deeper is at most `h` high, and the links of a chain add at most `k`
nodes. -/
structure HeightBound (D : Production → Lang Expr) (h k : Nat) : Prop where
  conditional : ∀ ls e, D .conditional ls e → e.height ≤ h
  power : ∀ ls e, D .power ls e → e.height ≤ h
  unary : ∀ ls e, D .unary ls e → e.height ≤ h
  link : ∀ start target ls e, D (.link start target) ls e → e.height ≤ max target.height h + k

section Levels

variable {D : Production → Lang Expr} {h k n : Nat} {ls : List Lexeme} {e : Expr}

theorem height_of_isAtom {l : Lexeme} (hatom : IsAtom l e) : e.height = 1 := by
  cases hatom <;> rfl

theorem Entry.height_le (hD : HeightBound D h k) (hpos : 1 ≤ h) {p : EntryKey × Expr}
    (hp : Entry D ls p) : p.2.height ≤ h := by
  cases hp with
  | keyed _ _ hvalue => exact hD.conditional _ _ hvalue
  | shorthand _ => exact hpos

theorem Primary.height_le (hD : HeightBound D h k) (hpos : 1 ≤ h) (he : Primary D ls e) :
    e.height ≤ h + 1 := by
  cases he with
  | atom hatom =>
    rw [height_of_isAtom hatom]
    omega
  | group _ hinner _ => exact Nat.le_succ_of_le (hD.conditional _ _ hinner)
  | array _ hitems _ => exact height_le_succ (hitems.forall_mem hD.conditional)
  | object _ hentries _ =>
    apply height_le_succ
    rw [children, List.forall_mem_map]
    exact hentries.forall_mem fun _ p hp => Entry.height_le hD hpos hp

theorem Chain.height_le (hD : HeightBound D h k) {start : Nat} {target : Expr}
    (he : Chain D start target ls e) : e.height ≤ max target.height h + k := by
  cases he with
  | stop => exact Nat.le_add_right_of_le (Nat.le_max_left _ _)
  | link hlink => exact hD.link _ _ _ _ hlink

/-- A link is one node on what it has for its target, and the next one goes on from there. -/
theorem Link.height_le (hD : HeightBound D h k) {start : Nat} {target : Expr}
    (he : Link D start target ls e) : e.height ≤ max target.height h + k + 1 := by
  have hnext : ∀ {target' ls}, target'.height ≤ max target.height h + 1 →
      Chain D start target' ls e → e.height ≤ max target.height h + k + 1 := by
    intro target' ls htarget hchain
    have hheight := hchain.height_le hD
    omega
  cases he with
  | member _ _ hrest =>
    apply hnext _ hrest
    exact Nat.succ_le_succ (Nat.le_max_left _ _)
  | index _ hkey _ hrest =>
    have hheight := hD.conditional _ _ hkey
    apply hnext _ hrest
    rw [height]
    omega
  | call _ hargs _ hrest =>
    have hheight := listHeight_le (hargs.forall_mem hD.conditional)
    apply hnext _ hrest
    rw [height]
    omega

theorem Chained.height_le (hD : HeightBound D h k) (hpos : 1 ≤ h) (he : Chained D ls e) :
    e.height ≤ h + k + 1 := by
  obtain ⟨hprimary, hchain⟩ := he
  have htarget := hprimary.height_le hD hpos
  have hheight := hchain.height_le hD
  omega

theorem Signed.height_le (hD : HeightBound D h k) (hpos : 1 ≤ h) (he : Signed D ls e) :
    e.height ≤ h + k + 1 := by
  cases he with
  | unary _ hoperand =>
    have hheight := hD.unary _ _ hoperand
    rw [height]
    omega
  | chained hchained => exact hchained.height_le hD hpos

theorem Power.height_le (hD : HeightBound D h k) (hpos : 1 ≤ h) (he : Power D ls e) :
    e.height ≤ h + k + 2 := by
  cases he with
  | signed hsigned => exact Nat.le_succ_of_le (hsigned.height_le hD hpos)
  | power hbase _ hexponent =>
    have hleft := hbase.height_le hD hpos
    have hright := hD.power _ _ hexponent
    simp only [height, runHeight]
    omega

/-- Seven levels of runs can stand on a power. -/
theorem Coalescence.height_le (hpower : ∀ ls e, Power D ls e → e.height ≤ n)
    (he : Coalescence D ls e) : e.height ≤ n + 7 := by
  have hproduct : ∀ ls e, Product D ls e → e.height ≤ n + 1 := fun _ _ => Run.height_le hpower
  have hsum : ∀ ls e, Sum D ls e → e.height ≤ n + 2 := fun _ _ => Run.height_le hproduct
  have hrelation : ∀ ls e, Relation D ls e → e.height ≤ n + 3 := fun _ _ => Run.height_le hsum
  have hequality : ∀ ls e, Equality D ls e → e.height ≤ n + 4 := fun _ _ => Run.height_le hrelation
  have hconjunction : ∀ ls e, Conjunction D ls e → e.height ≤ n + 5 :=
    fun _ _ => LogicalRun.height_le hequality
  have hdisjunction : ∀ ls e, Disjunction D ls e → e.height ≤ n + 6 :=
    fun _ _ => LogicalRun.height_le hconjunction
  exact LogicalRun.height_le hdisjunction he

theorem Choice.height_le (hD : HeightBound D h k) (hpos : 1 ≤ h) (he : Choice D ls e) :
    e.height ≤ h + k + 10 := by
  have hcoalescence : ∀ ls e, Coalescence D ls e → e.height ≤ h + k + 9 := fun _ _ =>
    Coalescence.height_le fun _ _ => Power.height_le hD hpos
  cases he with
  | test htest => exact Nat.le_succ_of_le (hcoalescence _ _ htest)
  | conditional htest _ hconsequent _ halternate =>
    have htest := hcoalescence _ _ htest
    have hconsequent := hD.conditional _ _ hconsequent
    have halternate := hD.conditional _ _ halternate
    rw [height]
    omega

end Levels

/-- With room for one level there is neither a conditional nor a power. -/
theorem Choice.height_le_nine {ls : List Lexeme} {e : Expr} (hD : HeightBound (Derives 0) 1 0)
    (he : Choice (Derives 0) ls e) : e.height ≤ 9 := by
  have hpower : ∀ ls e, Power (Derives 0) ls e → e.height ≤ 2 := by
    intro ls e he
    cases he with
    | signed hsigned => exact hsigned.height_le hD (Nat.le_refl 1)
    | power _ _ hexponent => exact hexponent.elim
  cases he with
  | test htest => exact Coalescence.height_le hpower htest
  | conditional _ _ hconsequent => exact hconsequent.elim

/-- The bound for a level comes from the one for the level below it. -/
theorem heightBound_derives (room : Nat) : HeightBound (Derives room) (maxHeight room) room := by
  induction room with
  | zero =>
    exact {
      conditional := fun _ _ h => h.elim
      power := fun _ _ h => h.elim
      unary := fun _ _ h => h.elim
      link := fun _ _ _ _ h => h.elim }
  | succ room ih =>
    have hpos := one_le_maxHeight room
    have hnext := maxHeight_add_le room
    refine ⟨fun ls e he => ?_, fun ls e he => ?_, fun ls e he => ?_, fun start target ls e he => ?_⟩
    · -- the last level has no room for all that the other ones can have
      obtain _ | room := room
      · exact Choice.height_le_nine ih he
      · have hheight := Choice.height_le ih hpos he
        rw [maxHeight]
        omega
    · exact Nat.le_trans (Power.height_le ih hpos he) hnext
    · have hheight := Signed.height_le ih hpos he
      omega
    · have hheight := Link.height_le ih he
      omega

/-- What is parsed is not higher than `maxHeight` of the limit. -/
theorem height_le_of_parse {limit : Nat} {source : String} {e : Expr}
    (h : parse limit source = .ok e) : e.height ≤ maxHeight limit := by
  rcases parse_eq_ok_iff.mp h with ⟨-, rfl⟩ | ⟨-, ls, stop, -, hderives⟩
  · exact one_le_maxHeight limit
  · exact (heightBound_derives limit).conditional ls e hderives

/-! ### Texts with given tokens -/

/-- The token can be written so that it is read where a blank character follows it. -/
def Writable (t : Token) : Prop :=
  ∃ c w, Text.isBlank c = false ∧ Token.read (c :: w ++ [' ']) = .ok (t, (c :: w).length)

/-- How a symbol is written. -/
def symbolChars : Symbol → List Char
  | .plus => ['+']
  | .minus => ['-']
  | .star => ['*']
  | .starStar => ['*', '*']
  | .slash => ['/']
  | .percent => ['%']
  | .bang => ['!']
  | .equal => ['=', '=']
  | .strictEqual => ['=', '=', '=']
  | .notEqual => ['!', '=']
  | .strictNotEqual => ['!', '=', '=']
  | .less => ['<']
  | .lessEqual => ['<', '=']
  | .greater => ['>']
  | .greaterEqual => ['>', '=']
  | .andAnd => ['&', '&']
  | .orOr => ['|', '|']
  | .nullish => ['?', '?']
  | .question => ['?']
  | .colon => [':']
  | .comma => [',']
  | .dot => ['.']
  | .parenOpen => ['(']
  | .parenClose => [')']
  | .bracketOpen => ['[']
  | .bracketClose => [']']
  | .braceOpen => ['{']
  | .braceClose => ['}']

theorem writable_symbol (s : Symbol) : Writable (.symbol s) := by
  have hchars : ∃ c w, symbolChars s = c :: w ∧ Text.isBlank c = false ∧
      Token.read (c :: w ++ [' ']) = .ok (.symbol s, (c :: w).length) := by
    cases s <;> exact ⟨_, _, rfl, by decide, rfl⟩
  obtain ⟨c, w, -, hread⟩ := hchars
  exact ⟨c, w, hread⟩

/-- Tokens that can be written are the tokens of a text. -/
theorem exists_lexed {ts : List Token} (h : ∀ t ∈ ts, Writable t) (offset : Nat) :
    ∃ cs ls stop, Lexed cs offset ls stop ∧ ls.map Lexeme.token = ts := by
  induction ts generalizing offset with
  | nil => exact ⟨[], [], offset, Lexed.finish, rfl⟩
  | cons t ts ih =>
    obtain ⟨ht, hts⟩ := List.forall_mem_cons.mp h
    obtain ⟨c, w, hblank, hread⟩ := ht
    obtain ⟨cs, ls, stop, hlexed, htokens⟩ :=
      ih hts (offset + Text.byteSize (c :: w) + ' '.utf8Size)
    have hread' : Token.read (c :: w ++ ' ' :: cs) = .ok (t, (c :: w).length) :=
      Token.read_append hread (Or.inl rfl)
    refine ⟨c :: w ++ ' ' :: cs, _ :: ls, stop, Lexed.token hblank hread' (Lexed.blank rfl hlexed),
      ?_⟩
    rw [List.map_cons, htokens]

/-! ### High trees -/

/-- Lexemes with these tokens stand for an expression of this height. -/
def Attains (L : Lang Expr) (ts : List Token) (n : Nat) : Prop :=
  ∀ ls, ls.map Lexeme.token = ts → ∃ e, L ls e ∧ e.height = n

section Attained

variable {L : Lang Expr} {D : Production → Lang Expr} {ts us : List Token} {m n : Nat}

theorem Attains.mono {L' : Lang Expr} (h : Attains L ts n) (hle : ∀ ls e, L ls e → L' ls e) :
    Attains L' ts n := by
  intro ls hls
  obtain ⟨e, he, hheight⟩ := h ls hls
  exact ⟨e, hle ls e he, hheight⟩

theorem attains_name : Attains (Primary D) [.name "a"] 1 := by
  intro ls hls
  obtain ⟨l, rfl, hl⟩ := List.map_eq_singleton_iff.mp hls
  exact ⟨ident "a" ⟨l.start, l.stop⟩, Primary.atom (.reference hl (by decide)), rfl⟩

/-- An operand alone is a run. -/
theorem Attains.run (h : Attains L ts n) (tier : Tier) : Attains (Run tier L) ts n := by
  apply h.mono
  intro ls e he
  have hnone : RunRest tier L [] [] := RunRest.nil
  have hrun := Run.mk he hnone
  rwa [List.append_nil] at hrun

theorem Attains.run_cons (hfirst : Attains L ts m) (tier : Tier) (op : BinaryOp)
    (hop : op ∈ tier.operators) (hsecond : Attains L us n) (hle : m ≤ n) :
    Attains (Run tier L) (ts ++ .symbol op.sign :: us) (n + 1) := by
  intro ls hls
  obtain ⟨ks, js, rfl, hks, hjs⟩ := List.map_eq_append_iff.mp hls
  obtain ⟨l, js, rfl, hl, hjs⟩ := List.map_eq_cons_iff.mp hjs
  obtain ⟨e, he, hheight⟩ := hfirst ks hks
  obtain ⟨e', he', hheight'⟩ := hsecond js hjs
  have hrest := RunRest.cons hl hop he' RunRest.nil
  rw [List.append_nil] at hrest
  refine ⟨mkRun e [(op, e')], Run.mk he hrest, ?_⟩
  simp only [mkRun, height, runHeight]
  omega

theorem Attains.logicalRun (h : Attains L ts n) (op : LogicalOp) :
    Attains (LogicalRun op L) ts n := by
  apply h.mono
  intro ls e he
  have hnone : LogicalRest op L [] [] := LogicalRest.nil
  have hrun : LogicalRun op L (ls ++ []) (mkLogical op e []) := LogicalRun.mk he hnone
  rwa [List.append_nil] at hrun

theorem Attains.logicalRun_cons (hfirst : Attains L ts m) (op : LogicalOp)
    (hsecond : Attains L us n) (hle : m ≤ n) :
    Attains (LogicalRun op L) (ts ++ .symbol op.sign :: us) (n + 1) := by
  intro ls hls
  obtain ⟨ks, js, rfl, hks, hjs⟩ := List.map_eq_append_iff.mp hls
  obtain ⟨l, js, rfl, hl, hjs⟩ := List.map_eq_cons_iff.mp hjs
  obtain ⟨e, he, hheight⟩ := hfirst ks hks
  obtain ⟨e', he', hheight'⟩ := hsecond js hjs
  have hrest := LogicalRest.cons hl he' LogicalRest.nil
  rw [List.append_nil] at hrest
  refine ⟨mkLogical op e [e'], LogicalRun.mk he hrest, ?_⟩
  simp only [mkLogical, height, listHeight]
  omega

theorem Attains.power (h : Attains (Primary D) ts n) : Attains (Power D) ts n := by
  apply h.mono
  intro ls e he
  obtain ⟨l, ks, rfl, -⟩ := he.begins
  have hchained := Chained.mk he Chain.stop
  rw [List.append_nil] at hchained
  exact Power.signed (Signed.chained hchained)

/-- Lexemes with these tokens stand for an expression of this height at all levels of runs. -/
structure AttainsRuns (D : Production → Lang Expr) (ts : List Token) (n : Nat) : Prop where
  product : Attains (Product D) ts n
  sum : Attains (Sum D) ts n
  relation : Attains (Relation D) ts n
  equality : Attains (Equality D) ts n
  conjunction : Attains (Conjunction D) ts n
  disjunction : Attains (Disjunction D) ts n
  coalescence : Attains (Coalescence D) ts n

theorem Attains.runs (h : Attains (Power D) ts n) : AttainsRuns D ts n := by
  have hproduct : Attains (Product D) ts n := h.run .product
  have hsum : Attains (Sum D) ts n := hproduct.run .sum
  have hrelation : Attains (Relation D) ts n := hsum.run .relation
  have hequality : Attains (Equality D) ts n := hrelation.run .equality
  have hconjunction : Attains (Conjunction D) ts n := hequality.logicalRun .and
  have hdisjunction : Attains (Disjunction D) ts n := hconjunction.logicalRun .or
  exact ⟨hproduct, hsum, hrelation, hequality, hconjunction, hdisjunction,
    hdisjunction.logicalRun .nullish⟩

/-- A name before each of the operators, and then the tokens. -/
def inRuns : List Symbol → List Token → List Token
  | [], ts => ts
  | s :: signs, ts => .name "a" :: .symbol s :: inRuns signs ts

/-- Each level of runs adds a node. -/
theorem Attains.coalescence_inRuns (h : Attains (Power D) ts n) (hpos : 1 ≤ n) :
    Attains (Coalescence D) (inRuns [.nullish, .orOr, .andAnd, .equal, .less, .plus, .star] ts)
      (n + 7) := by
  have hname : AttainsRuns D [.name "a"] 1 := attains_name.power.runs
  have hle : ∀ k, 1 ≤ n + k := fun k => Nat.le_add_right_of_le hpos
  have hproduct : Attains (Product D) (inRuns [.star] ts) (n + 1) :=
    attains_name.power.run_cons .product .multiply (by decide) h hpos
  have hsum : Attains (Sum D) (inRuns [.plus, .star] ts) (n + 2) :=
    hname.product.run_cons .sum .add (by decide) hproduct (hle 1)
  have hrelation : Attains (Relation D) (inRuns [.less, .plus, .star] ts) (n + 3) :=
    hname.sum.run_cons .relation .less (by decide) hsum (hle 2)
  have hequality : Attains (Equality D) (inRuns [.equal, .less, .plus, .star] ts) (n + 4) :=
    hname.relation.run_cons .equality .equal (by decide) hrelation (hle 3)
  have hconjunction :
      Attains (Conjunction D) (inRuns [.andAnd, .equal, .less, .plus, .star] ts) (n + 5) :=
    hname.equality.logicalRun_cons .and hequality (hle 4)
  have hdisjunction :
      Attains (Disjunction D) (inRuns [.orOr, .andAnd, .equal, .less, .plus, .star] ts) (n + 6) :=
    hname.conjunction.logicalRun_cons .or hconjunction (hle 5)
  exact hname.disjunction.logicalRun_cons .nullish hdisjunction (hle 6)

/-- So many accesses to the property `a`. -/
def propertyLinks : Nat → List Token
  | 0 => []
  | count + 1 => .symbol .dot :: .name "a" :: propertyLinks count

/-- A chain can have as many links as there are levels left. -/
theorem exists_chain_links {count room : Nat} (hle : count ≤ room) (start : Nat) (target : Expr)
    {ls : List Lexeme} (hls : ls.map Lexeme.token = propertyLinks count) :
    ∃ e, Chain (Derives room) start target ls e ∧ e.height = target.height + count := by
  induction count generalizing room target ls with
  | zero =>
    obtain rfl := List.map_eq_nil_iff.mp hls
    exact ⟨target, Chain.stop, rfl⟩
  | succ count ih =>
    obtain _ | room := room
    · cases hle
    obtain ⟨dot, ks, rfl, hdot, hks⟩ := List.map_eq_cons_iff.mp hls
    obtain ⟨l, ks, rfl, hl, hks⟩ := List.map_eq_cons_iff.mp hks
    obtain ⟨e, hchain, hheight⟩ :=
      ih (Nat.le_of_succ_le_succ hle) (member target "a" ⟨start, l.stop⟩) hks
    have hproperty : IsPropertyName l.token "a" := by
      rw [hl]
      exact .name "a"
    refine ⟨e, Chain.link (Link.member hdot hproperty hchain), ?_⟩
    rw [hheight, height]
    omega

/-- A power of a chain, whose links do not count with the levels that nest in what it begins
with. -/
theorem Attains.chained_power {room : Nat} (h : Attains (Primary (Derives (room + 1))) ts n)
    (hpos : 1 ≤ n) :
    Attains (Power (Derives (room + 1)))
      (ts ++ propertyLinks (room + 1) ++ [.symbol .starStar, .name "a"])
      (n + room + 2) := by
  intro _ hall
  obtain ⟨_, js, rfl, hbase, hjs⟩ := List.map_eq_append_iff.mp hall
  obtain ⟨ls, ks, rfl, hls, hks⟩ := List.map_eq_append_iff.mp hbase
  obtain ⟨op, js, rfl, hop, hjs⟩ := List.map_eq_cons_iff.mp hjs
  obtain ⟨e, he, hheight⟩ := h ls hls
  obtain ⟨l, ls, rfl, -⟩ := he.begins
  obtain ⟨base, hchain, hbase⟩ := exists_chain_links (Nat.le_refl (room + 1)) l.start e hks
  obtain ⟨exponent, hexponent, hone⟩ := (attains_name (D := Derives room)).power js hjs
  refine ⟨binary base [(.power, exponent)], Power.power (Chained.mk he hchain) hop hexponent, ?_⟩
  simp only [height, runHeight]
  omega

/-- Tokens that nest one more level than given, and stand for a tree as high as can be there. -/
def tower : Nat → List Token
  | 0 =>
    inRuns [.nullish, .orOr, .andAnd, .equal, .less, .plus, .star]
      [.symbol .braceOpen, .name "a", .symbol .braceClose]
  | room + 1 =>
    inRuns [.nullish, .orOr, .andAnd, .equal, .less, .plus, .star]
      (.symbol .bracketOpen :: tower room ++ [.symbol .bracketClose] ++ propertyLinks (room + 1) ++
        [.symbol .starStar, .name "a"]) ++ [.symbol .question, .name "a", .symbol .colon, .name "a"]

theorem attains_shorthand :
    Attains (Primary D) [.symbol .braceOpen, .name "a", .symbol .braceClose] 2 := by
  intro ls hls
  obtain ⟨opening, ks, rfl, hopen, hks⟩ := List.map_eq_cons_iff.mp hls
  obtain ⟨l, ks, rfl, hl, hks⟩ := List.map_eq_cons_iff.mp hks
  obtain ⟨closing, rfl, hclose⟩ := List.map_eq_singleton_iff.mp hks
  exact ⟨_, Primary.object hopen (.last (.shorthand hl)) hclose, rfl⟩

theorem Attains.array (h : Attains (D .conditional) ts n) :
    Attains (Primary D) (.symbol .bracketOpen :: ts ++ [.symbol .bracketClose]) (n + 1) := by
  intro _ hls
  obtain ⟨_, js, rfl, hks, hjs⟩ := List.map_eq_append_iff.mp hls
  obtain ⟨opening, ks, rfl, hopen, hks⟩ := List.map_eq_cons_iff.mp hks
  obtain ⟨closing, rfl, hclose⟩ := List.map_eq_singleton_iff.mp hjs
  obtain ⟨e, he, hheight⟩ := h ks hks
  refine ⟨.array [e], Primary.array hopen (.last he) hclose, ?_⟩
  simp only [height, listHeight]
  omega

theorem Attains.conditional {room : Nat} (h : Attains (Coalescence (Derives (room + 1))) ts n)
    (hpos : 1 ≤ n) :
    Attains (Choice (Derives (room + 1)))
      (ts ++ [.symbol .question, .name "a", .symbol .colon, .name "a"])
      (n + 1) := by
  have hname : Attains (Derives (room + 1) .conditional) [.name "a"] 1 :=
    attains_name.power.runs.coalescence.mono fun _ _ => Choice.test
  intro _ hall
  obtain ⟨ls, js, rfl, hls, hjs⟩ := List.map_eq_append_iff.mp hall
  obtain ⟨question, js, rfl, hquestion, hjs⟩ := List.map_eq_cons_iff.mp hjs
  obtain ⟨l, js, rfl, hl, hjs⟩ := List.map_eq_cons_iff.mp hjs
  obtain ⟨colon, ns, rfl, hcolon, hns⟩ := List.map_eq_cons_iff.mp hjs
  obtain ⟨test, htest, hheight⟩ := h ls hls
  obtain ⟨consequent, hconsequent, hone⟩ := hname [l] (by rw [List.map_singleton, hl])
  obtain ⟨alternate, halternate, hone'⟩ := hname ns hns
  have hchoice := Choice.conditional htest hquestion hconsequent hcolon halternate
  simp only [List.append_assoc, List.cons_append] at hchoice
  refine ⟨_, hchoice, ?_⟩
  rw [height]
  omega

theorem writable_tower (room : Nat) : ∀ t ∈ tower room, Writable t := by
  have hname : Writable (.name "a") := ⟨'a', [], by decide, by decide⟩
  have hruns : ∀ (signs : List Symbol) {ts : List Token}, (∀ t ∈ ts, Writable t) →
      ∀ t ∈ inRuns signs ts, Writable t := by
    intro signs ts hts
    induction signs with
    | nil => exact hts
    | cons s signs ih => simpa [inRuns, hname, writable_symbol] using ih
  have hlinks : ∀ count, ∀ t ∈ propertyLinks count, Writable t := by
    intro count
    induction count with
    | zero => simp [propertyLinks]
    | succ count ih => simpa [propertyLinks, hname, writable_symbol] using ih
  induction room with
  | zero => exact hruns _ (by simp [hname, writable_symbol])
  | succ room ih =>
    rw [tower, List.forall_mem_append]
    refine ⟨hruns _ ?_, by simp [hname, writable_symbol]⟩
    simp only [List.forall_mem_append, List.forall_mem_cons]
    exact ⟨⟨⟨⟨writable_symbol _, ih⟩, by simp [writable_symbol]⟩, hlinks (room + 1)⟩,
      by simp [hname, writable_symbol]⟩

theorem attains_tower (room : Nat) :
    Attains (Derives (room + 1) .conditional) (tower room) (maxHeight (room + 1)) := by
  induction room with
  | zero =>
    exact (attains_shorthand.power.coalescence_inRuns (by decide)).mono fun _ _ => Choice.test
  | succ room ih =>
    have hpower := ih.array.chained_power (Nat.succ_pos _)
    have hchoice := (hpower.coalescence_inRuns (Nat.succ_pos _)).conditional (Nat.succ_pos _)
    have hheight : maxHeight (room + 2) = maxHeight (room + 1) + 1 + room + 2 + 7 + 1 := by
      rw [maxHeight]
      omega
    rw [hheight]
    exact hchoice

end Attained

/-- The tokens of the tower, with blanks between them, are a text. -/
theorem exists_parse_tower (room : Nat) :
    ∃ source e, parse (room + 1) source = .ok e ∧ e.height = maxHeight (room + 1) := by
  obtain ⟨cs, ls, stop, hlexed, htokens⟩ := exists_lexed (writable_tower room) 0
  obtain ⟨e, hderives, hheight⟩ := attains_tower room ls htokens
  have hblank : Text.allBlank cs = false := by
    rw [Bool.eq_false_iff]
    intro hblank
    rw [hlexed.ne_nil_of_not_allBlank.mpr hblank] at htokens
    cases room <;> cases htokens
  refine ⟨String.ofList cs, e, parse_eq_ok_iff.mpr (Or.inr ?_), hheight⟩
  rw [String.toList_ofList]
  exact ⟨hblank, ls, stop, hlexed, hderives⟩

theorem exists_parse_height (limit : Nat) :
    ∃ source e, parse limit source = .ok e ∧ e.height = maxHeight limit := by
  cases limit with
  | zero => exact ⟨"", empty, parse_of_allBlank rfl, rfl⟩
  | succ room => exact exists_parse_tower room

/-- **How high the trees of parsed texts are.** There is a greatest height for each limit,
which grows with the square of the limit. It is at most ten times as much as the limit only if
the limit is one or two. -/
theorem isGreatest_maxHeight (limit : Nat) :
    IsGreatest {n | ∃ source e, parse limit source = .ok e ∧ e.height = n} (maxHeight limit) ∧
    2 * maxHeight (limit + 1) = limit * limit + 21 * limit + 18 ∧
    ((∀ source e, parse limit source = .ok e → e.height ≤ 10 * limit) ↔ limit = 1 ∨ limit = 2) := by
  refine ⟨⟨exists_parse_height limit, ?_⟩, two_mul_maxHeight limit, ?_⟩
  · rintro _ ⟨source, e, hparse, rfl⟩
    exact height_le_of_parse hparse
  · rw [← maxHeight_le_iff]
    constructor
    · intro h
      obtain ⟨source, e, hparse, hheight⟩ := exists_parse_height limit
      rw [← hheight]
      exact h source e hparse
    · exact fun hle source e hparse => Nat.le_trans (height_le_of_parse hparse) hle

/-- Three levels have room for a tree that is higher than thirty. -/
theorem isGreatest_maxHeight_three : ∃ source e, parse 3 source = .ok e ∧ e.height = 32 :=
  (isGreatest_maxHeight 3).1.1

example : (parse 3 ("a ?? a || a && a == a < a + a * [a ?? a || a && a == a < a + a * " ++
    "[a ?? a || a && a == a < a + a * \x7ba\x7d].a ** a ? a : a].a.a ** a ? a : a")).toOption.map
      height = some 32 := by
  decide +kernel

end FormulaSheet.Expr
