import FormulaSheet.Proofs.Expr.Members
import FormulaSheet.Proofs.Expr.FaultPlaces
import FormulaSheet.Proofs.Expr.ScannedTokens
import FormulaSheet.Proofs.Expr.SourceOrder

/-!
# The positions of an expression are exact

A text can be parsed by byte offsets, without a slice that it does not have. Each name of the
expression that is read is what the text holds between the two ends of its span, the spans follow
one another, and an access to a property goes from the beginning of its object to the end of the
property. Where no expression is read, the fault lies at a place where a character begins or the
text ends (`Expr.positions_exact`).
-/

namespace FormulaSheet

open Text (byteSize)

/-! ### Tokens and their text -/

/-- The tokens have their places between characters of the text. -/
theorem Tokens.scan_places (pre cs : List Char) (skip : Nat) :
    (scan cs skip (byteSize pre)).Places (Text.IsBoundary (pre ++ cs)) := by
  induction cs generalizing pre skip with
  | nil => exact ⟨pre, [], rfl, rfl⟩
  | cons c cs ih =>
    have hnext : ∀ skip, (scan cs skip (byteSize pre + c.utf8Size)).Places
        (Text.IsBoundary (pre ++ c :: cs)) := by
      intro skip
      have hplaces := ih (pre ++ [c]) skip
      rw [Text.byteSize_append, List.append_assoc] at hplaces
      exact hplaces
    cases skip with
    | succ skip => exact hnext skip
    | zero =>
      rw [scan]
      split
      · exact hnext 0
      · split
        · rename_i fault n _
          refine ⟨pre ++ (c :: cs).take n, (c :: cs).drop n, ?_, ?_⟩
          · rw [List.append_assoc, List.take_append_drop]
          · rw [Text.byteSize_append]
        · exact ⟨⟨pre, c :: cs, rfl, rfl⟩, hnext _⟩

namespace Expr

/-- A word stands for itself as the name of a property. -/
theorem eq_of_isPropertyName_ofWord {word property : String}
    (h : IsPropertyName (Token.ofWord word) property) : word = property := by
  unfold Token.ofWord at h
  split_ifs at h with htrue hfalse hnull htypeof <;> cases h
  · exact htrue
  · exact hfalse
  · exact hnull
  · exact htypeof
  · rfl
  · rfl

/-- The name of a property is the word that stands for it. -/
theorem eq_of_isPropertyName {w rest : List Char} {t : Token} {property : String}
    (hread : Token.read (w ++ rest) = .ok (t, w.length)) (h : IsPropertyName t property) :
    String.ofList w = property := by
  obtain ⟨-, hnumber⟩ | ⟨-, _, -, rfl⟩ | ⟨_, _, _, -, -, -, rfl⟩ |
      ⟨c, v, rest', hsplit, hlength, -, -, -, rfl⟩ :=
    Token.read_eq_ok hread
  · obtain ⟨x, rfl⟩ := Token.exists_number_of_readNumber hnumber
    cases h
  · cases h
  · cases h
  · obtain ⟨rfl, -⟩ := List.append_inj hsplit hlength
    exact eq_of_isPropertyName_ofWord h

end Expr

namespace Lexed

variable {cs pre : List Char} {offset stop : Nat} {ls : List Lexeme}

/-- The lexemes behind `pre` are slices of the whole text. -/
theorem slice?_behind (h : Lexed cs (byteSize pre) ls stop) :
    ∀ l ∈ ls, Text.slice? (pre ++ cs) l.start l.stop = some l.text.toList := by
  generalize hoffset : byteSize pre = offset at h
  induction h generalizing pre with
  | finish =>
    intro l hl
    cases hl
  | @blank c cs offset stop ls hblank hrest ih =>
    have hsize : byteSize (pre ++ [c]) = offset + c.utf8Size := by
      rw [Text.byteSize_append, hoffset]
      rfl
    have hslices := ih hsize
    rw [List.append_assoc] at hslices
    exact hslices
  | @token c w rest offset stop token ls hblank hread hrest ih =>
    have hsize : byteSize (pre ++ c :: w) = offset + byteSize (c :: w) := by
      rw [Text.byteSize_append, hoffset]
    intro l hl
    rcases List.mem_cons.mp hl with rfl | hl
    · rw [← hsize, ← hoffset, String.toList_ofList]
      exact Text.slice?_eq_some_iff.mpr ⟨pre, rest, rfl, rfl, rfl⟩
    · have hslices := ih hsize l hl
      rw [List.append_assoc] at hslices
      exact hslices

/-- A lexeme is what the text holds between its two ends. -/
theorem slice? (h : Lexed cs 0 ls stop) :
    ∀ l ∈ ls, Text.slice? cs l.start l.stop = some l.text.toList := by
  have hbehind : Lexed cs (byteSize []) ls stop := h
  exact hbehind.slice?_behind

/-- The lexemes follow one another and do not overlap. -/
theorem pairwise (h : Lexed cs offset ls stop) :
    ls.Pairwise fun l k => l.start < k.start ∧ l.stop ≤ k.start := by
  induction h with
  | finish => exact List.Pairwise.nil
  | blank _ _ ih => exact ih
  | @token c w rest offset stop token ls _ _ hrest ih =>
    refine List.pairwise_cons.mpr ⟨fun l hl => ?_, ih⟩
    have hbound := (hrest.bounds l hl).1
    have hpos := c.utf8Size_pos
    refine ⟨?_, hbound⟩
    rw [Text.byteSize_cons] at hbound
    dsimp only
    omega

theorem text_of_isPropertyName (h : Lexed cs offset ls stop) :
    ∀ l ∈ ls, ∀ property, Expr.IsPropertyName l.token property → l.text = property := by
  induction h with
  | finish =>
    intro l hl
    cases hl
  | blank _ _ ih => exact ih
  | token _ hread _ ih =>
    intro l hl property hproperty
    rcases List.mem_cons.mp hl with rfl | hl
    · exact Expr.eq_of_isPropertyName hread hproperty
    · exact ih l hl property hproperty

end Lexed

namespace Expr

/-- The free names are some of the lexemes. -/
theorem Marked.exists_sublist {rename : String → Option String} {ls : List Lexeme}
    {names : List (String × Span)} {es : List Edit} (h : Marked rename ls names es)
    (htext : ∀ l ∈ ls, ∀ s, l.token = .name s → l.text = s) :
    ∃ ms : List Lexeme, ms.Sublist ls ∧ names = ms.map fun l => (l.text, ⟨l.start, l.stop⟩) := by
  induction h with
  | nil => exact ⟨[], List.Sublist.refl _, rfl⟩
  | other _ ih =>
    obtain ⟨ms, hsub, rfl⟩ := ih fun k hk => htext k (List.mem_cons_of_mem _ hk)
    exact ⟨ms, hsub.cons _, rfl⟩
  | @kept l s _ _ _ hname _ _ ih | @edited l s _ _ _ _ _ hname _ _ _ ih =>
    obtain ⟨ms, hsub, rfl⟩ := ih fun k hk => htext k (List.mem_cons_of_mem _ hk)
    refine ⟨l :: ms, hsub.cons_cons _, ?_⟩
    rw [List.map_cons, htext l List.mem_cons_self s hname]

/-! ### Parsing by byte offsets -/

/-- Reads a text as an expression by byte offsets. There is no result where a slice is taken
that the text does not have. -/
def parseByOffsets (limit : Nat) (source : String) : Option (Except SyntaxError Expr) :=
  if Text.allBlank source.toList then some (.ok empty)
  else
    (Scanner.ofText source.toList).map fun tokens =>
      match tokens with
      | .broken e => .error e
      | tokens => (whole limit ⟨tokens, 0⟩).map Prod.fst

theorem parseByOffsets_eq (limit : Nat) (source : String) :
    parseByOffsets limit source = some (parse limit source) := by
  unfold parseByOffsets
  cases hblank : Text.allBlank source.toList with
  | true =>
    rw [parse_of_allBlank hblank]
    rfl
  | false =>
    rw [Scanner.ofText_eq, if_neg Bool.false_ne_true, Option.map_some]
    rcases readable_or_broken (Tokens.ofText source.toList) with hread | ⟨fault, hbroken⟩
    · rw [parse_of_readable hblank hread]
      split
      · rename_i e htokens
        exact absurd htokens (hread e)
      · rfl
    · rw [parse_of_broken hblank hbroken, hbroken]

/-! ### Exact positions -/

/-- A text has a word between two byte offsets: both lie between characters, and the
bytes are those of the word. -/
def HasWord (source word : String) (start stop : Nat) : Prop :=
  Text.slice? source.toList start stop = some word.toList ∧ source.toByteArray.extract start stop =
    word.toByteArray

/-- An access in a text: some of its tokens are the access, and its span ends behind the word of the
property. -/
def MemberIn (source : String) (target : Expr) (property : String) (span : Span) : Prop :=
  (∃ ls stop before part behind, Lexed source.toList 0 ls stop ∧ ls = before ++ part ++ behind ∧
      IsMember part (target, property, span)) ∧
    HasWord source property (span.stop - property.utf8ByteSize) span.stop

/-- The positions in an expression that was read from a text. -/
structure Exact (source : String) (e : Expr) : Prop where
  /-- A name is what the text holds between the ends of its span. -/
  names : ∀ q ∈ e.identifiers, HasWord source q.1 q.2.start q.2.stop
  /-- The spans of the names follow one another and do not overlap. -/
  ordered : e.identifiers.Pairwise fun p q => p.2.start < q.2.start ∧ p.2.stop ≤ q.2.start
  /-- An access goes from the first token of its object to the name of the property. -/
  members : ∀ target property span, member target property span ∈ e.nodes →
  MemberIn source target property span

theorem utf8ByteSize_eq (s : String) : s.utf8ByteSize = byteSize s.toList := by
  rw [← Text.size_toByteArray, String.ofList_toList]
  rfl

theorem hasWord_of_slice? {source word : String} {start stop : Nat}
    (h : Text.slice? source.toList start stop = some word.toList) :
    HasWord source word start stop := by
  refine ⟨h, ?_⟩
  rw [Text.extract_of_slice? h, String.ofList_toList]

/-- The word behind the point of an access ends where the access does. -/
theorem memberIn_of_isMember {source : String} {ls before part behind : List Lexeme} {stop : Nat}
    {target : Expr} {property : String} {span : Span} (hlexed : Lexed source.toList 0 ls stop)
    (hsplit : ls = before ++ part ++ behind) (h : IsMember part (target, property, span)) :
    MemberIn source target property span := by
  refine ⟨⟨ls, stop, before, part, behind, hlexed, hsplit, h⟩, ?_⟩
  cases h with
  | @mk l dot name object _ _ htarget hdot hproperty =>
    have hname : name ∈ ls := by
      rw [hsplit]
      simp
    have hslice := hlexed.slice? name hname
    rw [hlexed.text_of_isPropertyName name hname property hproperty] at hslice
    obtain ⟨pre, post, -, hstart, hstop⟩ := Text.slice?_eq_some_iff.mp hslice
    have hword : name.stop - property.utf8ByteSize = name.start := by
      rw [hstart, hstop, utf8ByteSize_eq, Text.byteSize_append, Nat.add_sub_cancel]
    show HasWord source property (name.stop - property.utf8ByteSize) name.stop
    rw [hword]
    exact hasWord_of_slice? hslice

theorem exact_of_parse {limit : Nat} {source : String} {e : Expr} (h : parse limit source = .ok e) :
    Exact source e := by
  rcases parse_eq_ok_iff.mp h with ⟨-, rfl⟩ | ⟨-, ls, stop, hlexed, hderives⟩
  · refine ⟨?_, List.Pairwise.nil, ?_⟩
    · intro q hq
      cases hq
    · intro target property span hmem
      cases mem_members.mpr hmem
  · have hphrase : Phrase .conditional ls e := phrase_iff_derives.mpr ⟨limit, hderives⟩
    have hmarked : Marked (fun _ => none) ls e.identifiers (e.edits fun _ => none) := hphrase.marked
    have htext : ∀ l ∈ ls, ∀ s, l.token = .name s → l.text = s := by
      intro l hl s hs
      apply hlexed.text_of_isPropertyName l hl
      rw [hs]
      exact .name s
    obtain ⟨ms, hsub, hnames⟩ := hmarked.exists_sublist htext
    refine ⟨?_, ?_, ?_⟩
    · intro q hq
      rw [hnames] at hq
      obtain ⟨l, hl, rfl⟩ := List.mem_map.mp hq
      exact hasWord_of_slice? (hlexed.slice? l (hsub.subset hl))
    · rw [hnames, List.pairwise_map]
      exact hlexed.pairwise.sublist hsub
    · intro target property span hmem
      obtain ⟨before, part, behind, hsplit, hmember⟩ := hphrase.members _ (mem_members.mpr hmem)
      exact memberIn_of_isMember hlexed hsplit hmember

/-- **Positions are exact.** Reading by byte offsets takes no slice that the text does not have.
Names and accesses of an expression that is read have their places in the text as it is written, and
the position of a fault is one in the text, at which a character begins or the text ends. -/
theorem positions_exact (limit : Nat) (source : String) :
    parseByOffsets limit source = some (parse limit source) ∧
      match parse limit source with
      | .ok e => Exact source e
      | .error error =>
        error.position ≤ source.utf8ByteSize ∧ Text.IsBoundary source.toList error.position := by
  refine ⟨parseByOffsets_eq limit source, ?_⟩
  cases h : parse limit source with
  | ok e => exact exact_of_parse h
  | error error =>
    have hboundary := position_of_parse (Tokens.scan_places [] source.toList 0) h
    refine ⟨?_, hboundary⟩
    rw [utf8ByteSize_eq]
    exact hboundary.le

end Expr

end FormulaSheet
