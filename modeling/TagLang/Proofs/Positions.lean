import TagLang.Token.Lexeme

/-!
# Positions in a source

Where lexemes stand.  A span counts bytes, and a source is a text of characters, so the
span of a lexeme is stated through the text before it.

* `Span.Holds` says that a text stands in a source at a span, and `Span.InText` that the
  ends of a span are boundaries between characters of the source.
* `Lexeme.scan_place` and `Lexeme.scan_pairwise` are about the lexemes of any text that
  starts at any byte.  The induction follows the scan.
* `inText_of_mem_tokens`, `tokens_pairwise` and `holds_of_mem_tokens` are about the tokens
  of a source, and `inText_of_mem_strays` and `strays_pairwise` about its stray text.
-/

namespace TagLang

/-! ## Spans -/

/-- The first span ends before the second one starts. -/
def Span.Before (first second : Span) : Prop :=
  first.stop ≤ second.start

/-- The first span is part of the second one. -/
def Span.Within (inner outer : Span) : Prop :=
  outer.start ≤ inner.start ∧ inner.stop ≤ outer.stop

/-- The text stands in the source at the span. -/
def Span.Holds (source : String) (span : Span) (text : String) : Prop :=
  ∃ before after : String, source = before ++ text ++ after ∧
    span.start = before.utf8ByteSize ∧ span.stop = before.utf8ByteSize + text.utf8ByteSize

/-- The span lies in the source, and both ends are boundaries between characters. -/
structure Span.InText (source : String) (span : Span) : Prop where
  ordered : span.start ≤ span.stop
  inside : span.stop ≤ source.utf8ByteSize
  start : String.Pos.Raw.IsValid source ⟨span.start⟩
  stop : String.Pos.Raw.IsValid source ⟨span.stop⟩

theorem Span.Holds.inText {source text : String} {span : Span} (h : span.Holds source text) :
    span.InText source := by
  obtain ⟨before, after, rfl, hstart, hstop⟩ := h
  refine ⟨by omega, ?_, ?_, ?_⟩
  · rw [hstop, String.utf8ByteSize_append, String.utf8ByteSize_append]
    omega
  · rw [String.Pos.Raw.isValid_iff_exists_append]
    exact ⟨before, text ++ after, by rw [String.append_assoc], by rw [hstart]; rfl⟩
  · rw [String.Pos.Raw.isValid_iff_exists_append]
    refine ⟨before ++ text, after, rfl, ?_⟩
    rw [hstop, ← String.utf8ByteSize_append]
    rfl

theorem Span.Holds.start_lt_stop {source text : String} {span : Span}
    (h : span.Holds source text) (htext : text ≠ "") : span.start < span.stop := by
  obtain ⟨before, after, -, hstart, hstop⟩ := h
  have hsize : text.utf8ByteSize ≠ 0 := by
    rw [ne_eq, String.utf8ByteSize_eq_zero_iff]
    exact htext
  omega

/-! ## Bytes of a text -/

theorem byteLength_cons (c : Char) (text : List Char) :
    byteLength (c :: text) = c.utf8Size + byteLength text := rfl

theorem byteLength_append (first second : List Char) :
    byteLength (first ++ second) = byteLength first + byteLength second := by
  induction first with
  | nil => simp [byteLength]
  | cons c first ih =>
    rw [List.cons_append, byteLength_cons, byteLength_cons, ih]
    omega

theorem utf8ByteSize_ofList (text : List Char) :
    (String.ofList text).utf8ByteSize = byteLength text := by
  induction text with
  | nil => rfl
  | cons c text ih =>
    rw [← List.singleton_append, String.ofList_append, String.utf8ByteSize_append, ih]
    simp [byteLength_cons]

theorem byteLength_toList (text : String) : byteLength text.toList = text.utf8ByteSize := by
  rw [← utf8ByteSize_ofList, String.ofList_toList]

/-! ## The lexemes of a text -/

/-- A lexeme is cut off somewhere in the text, and its span says where. -/
theorem Lexeme.scan_place (start : Nat) (text : List Char) :
    ∀ lexeme ∈ Lexeme.scan start text, ∃ before c rest,
      text = before ++ c :: rest ∧ lexeme.piece = (Cut.ofText c rest).piece ∧
        lexeme.text = c :: rest.take (Cut.ofText c rest).more ∧
        lexeme.span = ⟨start + byteLength before,
          start + byteLength before + byteLength lexeme.text⟩ := by
  fun_induction Lexeme.scan start text with
  | case1 start => simp
  | case2 start c rest cut text stop ih =>
    intro lexeme hmem
    rcases List.mem_cons.1 hmem with rfl | hmem
    · exact ⟨[], c, rest, rfl, rfl, rfl, rfl⟩
    · obtain ⟨before, d, after, hrest, hpiece, htext, hspan⟩ := ih lexeme hmem
      refine ⟨text ++ before, d, after, ?_, hpiece, htext, ?_⟩
      · rw [List.append_assoc, ← hrest]
        simp [text]
      · rw [hspan, byteLength_append]
        simp only [stop, Nat.add_assoc]

/-- The text of a lexeme stands where its span says, with `before` and `after` around
it. -/
theorem Lexeme.scan_split (start : Nat) (text : List Char) :
    ∀ lexeme ∈ Lexeme.scan start text, ∃ before after,
      text = before ++ (lexeme.text ++ after) ∧
        lexeme.span = ⟨start + byteLength before,
          start + byteLength before + byteLength lexeme.text⟩ := by
  intro lexeme hmem
  obtain ⟨before, c, rest, hsplit, -, htext, hspan⟩ := Lexeme.scan_place start text lexeme hmem
  refine ⟨before, rest.drop (Cut.ofText c rest).more, ?_, hspan⟩
  rw [hsplit, htext, List.cons_append, List.take_append_drop]

/-- Lexemes come one after the other. -/
theorem Lexeme.scan_pairwise (start : Nat) (text : List Char) :
    (Lexeme.scan start text).Pairwise fun first second => first.span.Before second.span := by
  fun_induction Lexeme.scan start text with
  | case1 start => exact .nil
  | case2 start c rest cut text stop ih =>
    refine List.pairwise_cons.2 ⟨fun lexeme hmem => ?_, ih⟩
    obtain ⟨before, after, -, hspan⟩ := Lexeme.scan_split _ _ lexeme hmem
    rw [hspan]
    exact Nat.le_add_right _ _

/-- A lexeme starts with the character at which it was cut off. -/
theorem Lexeme.scan_cut (start : Nat) (text : List Char) :
    ∀ lexeme ∈ Lexeme.scan start text, ∃ c rest,
      lexeme.piece = (Cut.ofText c rest).piece ∧
        lexeme.text = c :: rest.take (Cut.ofText c rest).more := by
  intro lexeme hmem
  obtain ⟨-, c, rest, -, hpiece, htext, -⟩ := Lexeme.scan_place start text lexeme hmem
  exact ⟨c, rest, hpiece, htext⟩

/-! ## Words -/

/-- The name or number that a token consists of. -/
def Token.word? : Token → Option String
  | name text => some text
  | int digits => some digits
  | _ => none

/-- A word that stands for a name is that name. -/
theorem Token.word?_ofWord {word name : String} (h : (Token.ofWord word).word? = some name) :
    name = word := by
  unfold Token.ofWord at h
  cases hlookup : Token.reserved.lookup word with
  | none =>
    rw [hlookup] at h
    exact (Option.some.inj h).symm
  | some token =>
    have hreserved : ∀ entry ∈ Token.reserved, entry.2.word? = none := by decide
    obtain ⟨before, after, hmem, -⟩ := List.lookup_eq_some_iff.1 hlookup
    have hnone := hreserved (word, token) (by rw [hmem]; simp)
    rw [hlookup, Option.getD_some, hnone] at h
    contradiction

theorem word?_of_symbolAt {c : Char} {next : Option Char} {token : Token} {more : Nat}
    (h : symbolAt c next = some (token, more)) : token.word? = none := by
  unfold symbolAt at h
  split at h <;> cases h <;> rfl

/-- A run of characters of a class `p`, all of which can stand in a word. -/
theorem Cut.toList_run {p : Char → Bool} (hp : ∀ x, p x = true → isWordPart x = true) {c : Char}
    (hc : isWordPart c = true) (rest : List Char) :
    (String.ofList (c :: rest.takeWhile p)).toList =
        c :: rest.take (rest.takeWhile p).length ∧
      ∀ x ∈ (String.ofList (c :: rest.takeWhile p)).toList, isWordPart x = true := by
  have hparts : ∀ x ∈ rest.takeWhile p, p x = true := List.all_eq_true.1 List.all_takeWhile
  rw [String.toList_ofList, ← List.prefix_iff_eq_take.1 (List.takeWhile_prefix p)]
  refine ⟨rfl, fun x hx => ?_⟩
  rcases List.mem_cons.1 hx with rfl | hx
  · exact hc
  · exact hp x (hparts x hx)

/-- A token that is a name or a number consists of the characters that were cut off. -/
theorem Cut.toList_word {c : Char} {rest : List Char} {token : Token} {word : String}
    (htoken : (Cut.ofText c rest).piece = .token token) (hword : token.word? = some word) :
    word.toList = c :: rest.take (Cut.ofText c rest).more ∧
      ∀ x ∈ word.toList, isWordPart x = true := by
  unfold Cut.ofText at htoken ⊢
  by_cases hblank : isBlank c = true
  · rw [if_pos hblank] at htoken
    contradiction
  rw [if_neg hblank] at htoken ⊢
  by_cases hdigit : isDigit c = true
  · rw [if_pos hdigit] at htoken ⊢
    obtain rfl := Piece.token.inj htoken
    obtain rfl := Option.some.inj hword
    exact Cut.toList_run (fun x hx => by simp [isWordPart, hx]) (by simp [isWordPart, hdigit]) rest
  rw [if_neg hdigit] at htoken ⊢
  by_cases hstart : isWordStart c = true
  · rw [if_pos hstart] at htoken ⊢
    obtain rfl := Piece.token.inj htoken
    obtain rfl := Token.word?_ofWord hword
    exact Cut.toList_run (fun _ hx => hx) (by simp [isWordPart, hstart]) rest
  -- The other tokens have no word: strings, the division sign and the symbols.
  rw [if_neg hstart] at htoken
  exfalso
  have hnone : token.word? = none := by
    split at htoken
    · unfold Cut.ofString at htoken
      dsimp only at htoken
      split at htoken <;> cases htoken
      rfl
    · split at htoken
      · unfold Cut.ofSlash at htoken
        split at htoken
        · cases htoken
        · dsimp only at htoken
          split at htoken <;> cases htoken
        · cases htoken
          rfl
      · split at htoken
        · rename_i hsymbol
          cases htoken
          exact word?_of_symbolAt hsymbol
        · cases htoken
  rw [hnone] at hword
  contradiction

/-! ## The lexemes of a source -/

/-- The text of a lexeme stands in the source at its span. -/
theorem Lexeme.holds {source : String} {lexeme : Lexeme} (h : lexeme ∈ lexemes source) :
    lexeme.span.Holds source (String.ofList lexeme.text) := by
  obtain ⟨before, after, hsplit, hspan⟩ := Lexeme.scan_split 0 source.toList lexeme h
  refine ⟨String.ofList before, String.ofList after, ?_, ?_, ?_⟩
  · rw [← String.ofList_append, ← String.ofList_append, List.append_assoc, ← hsplit,
      String.ofList_toList]
  · rw [hspan, utf8ByteSize_ofList, Nat.zero_add]
  · rw [hspan, utf8ByteSize_ofList, utf8ByteSize_ofList, Nat.zero_add]

/-- A lexeme takes at least one byte. -/
theorem Lexeme.start_lt_stop {source : String} {lexeme : Lexeme} (h : lexeme ∈ lexemes source) :
    lexeme.span.start < lexeme.span.stop := by
  obtain ⟨c, rest, -, htext⟩ := Lexeme.scan_cut 0 source.toList lexeme h
  exact (Lexeme.holds h).start_lt_stop (by simp [htext])

theorem Lexeme.token?_eq_some {lexeme : Lexeme} {t : Located} (h : lexeme.token? = some t) :
    lexeme.piece = .token t.token ∧ lexeme.span = t.span := by
  unfold Lexeme.token? at h
  split at h
  · cases h
    exact ⟨‹_›, rfl⟩
  · contradiction

theorem Lexeme.stray?_eq_some {lexeme : Lexeme} {stray : Stray} (h : lexeme.stray? = some stray) :
    lexeme.span = stray.span := by
  unfold Lexeme.stray? at h
  split at h
  · cases h
    rfl
  · contradiction

/-- What is made of lexemes, with their spans, comes in their order. -/
theorem pairwise_filterMap_lexemes {β : Type} {f : Lexeme → Option β} {place : β → Span}
    (hplace : ∀ lexeme b, f lexeme = some b → lexeme.span = place b) (source : String) :
    ((lexemes source).filterMap f).Pairwise fun first second =>
      (place first).Before (place second) := by
  refine List.Pairwise.filterMap f ?_ (Lexeme.scan_pairwise 0 source.toList)
  intro first second hbefore b hb b' hb'
  rw [← hplace first b hb, ← hplace second b' hb']
  exact hbefore

/-! ## Tokens and stray text -/

/-- Tokens come one after the other. -/
theorem tokens_pairwise (source : String) :
    (tokens source).Pairwise fun first second => first.span.Before second.span :=
  pairwise_filterMap_lexemes (fun _ _ h => (Lexeme.token?_eq_some h).2) source

/-- Stray texts come one after the other. -/
theorem strays_pairwise (source : String) :
    (strays source).Pairwise fun first second => first.span.Before second.span :=
  pairwise_filterMap_lexemes (fun _ _ h => Lexeme.stray?_eq_some h) source

/-- A token stands in the source, and takes at least one byte there. -/
theorem inText_of_mem_tokens {source : String} {t : Located} (h : t ∈ tokens source) :
    t.span.InText source ∧ t.span.start < t.span.stop := by
  obtain ⟨lexeme, hmem, htoken⟩ := List.mem_filterMap.1 h
  rw [← (Lexeme.token?_eq_some htoken).2]
  exact ⟨(Lexeme.holds hmem).inText, Lexeme.start_lt_stop hmem⟩

/-- Stray text stands in the source, and takes at least one byte there. -/
theorem inText_of_mem_strays {source : String} {stray : Stray} (h : stray ∈ strays source) :
    stray.span.InText source ∧ stray.span.start < stray.span.stop := by
  obtain ⟨lexeme, hmem, hstray⟩ := List.mem_filterMap.1 h
  rw [← Lexeme.stray?_eq_some hstray]
  exact ⟨(Lexeme.holds hmem).inText, Lexeme.start_lt_stop hmem⟩

/-- A name or a number stands in the source at the span of its token, and its characters
are those of words. -/
theorem holds_of_mem_tokens {source : String} {t : Located} (h : t ∈ tokens source)
    {word : String} (hword : t.token.word? = some word) :
    t.span.Holds source word ∧ ∀ c ∈ word.toList, isWordPart c = true := by
  obtain ⟨lexeme, hmem, htoken⟩ := List.mem_filterMap.1 h
  obtain ⟨hpiece, hspan⟩ := Lexeme.token?_eq_some htoken
  obtain ⟨c, rest, hcut, htext⟩ := Lexeme.scan_cut 0 source.toList lexeme hmem
  obtain ⟨hcutoff, hparts⟩ := Cut.toList_word (hcut.symm.trans hpiece) hword
  have hholds := Lexeme.holds hmem
  rw [hspan, htext, ← hcutoff, String.ofList_toList] at hholds
  exact ⟨hholds, hparts⟩

end TagLang
