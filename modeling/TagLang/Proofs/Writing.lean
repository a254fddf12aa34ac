import TagLang.Token.Writer

/-!
# Written tokens are read back

The text of a list of tokens, cut into lexemes again, gives the same tokens, each at
the place where it was written.

* `Token.writable` excludes the tokens that no text stands for: names that are not
  words, or are reserved, and numbers that are not made of digits.
* `Token.ofText_written` is the law for one token.  It is stated with the rest of the
  text, which has to start with a space, since every lexeme is as long as it can be.
* `placed` puts a list of tokens where `writeTokens` writes them, and `tokens_written` and
  `strays_written` are the results for whole texts.
-/

namespace TagLang

/-! ## Tokens that can be written -/

/-- A word that is not reserved. -/
def isName (text : String) : Bool :=
  match text.toList with
  | [] => false
  | c :: parts => isWordStart c && parts.all isWordPart && (Token.reserved.lookup text).isNone

/-- At least one digit, and nothing else. -/
def isNumeral (text : String) : Bool :=
  match text.toList with
  | [] => false
  | c :: digits => isDigit c && digits.all isDigit

/-- Whether some text stands for the token. -/
def Token.writable : Token → Bool
  | name text => isName text
  | int digits => isNumeral digits
  | _ => true

/-! ## Characters -/

theorem isWordPart_of_isBlank {c : Char} (h : isBlank c = true) : isWordPart c = false := by
  simp only [isBlank, Bool.or_eq_true, decide_eq_true_eq] at h
  obtain (((rfl | rfl) | rfl) | rfl) | rfl := h
  all_goals rfl

theorem isBlank_of_isWordPart {c : Char} (h : isWordPart c = true) : isBlank c = false := by
  cases hblank : isBlank c with
  | false => rfl
  | true =>
    rw [isWordPart_of_isBlank hblank] at h
    contradiction

theorem isDigit_of_isWordStart {c : Char} (h : isWordStart c = true) : isDigit c = false := by
  simp only [isWordStart, Bool.or_eq_true, Bool.and_eq_true, decide_eq_true_eq, Char.le_def,
    UInt32.le_iff_toNat_le] at h
  simp only [isDigit, Bool.and_eq_false_iff, decide_eq_false_iff_not, Char.le_def,
    UInt32.le_iff_toNat_le]
  right
  change ¬c.val.toNat ≤ 57
  obtain (hlower | hupper) | rfl := h
  · change 97 ≤ c.val.toNat ∧ c.val.toNat ≤ 122 at hlower
    omega
  · change 65 ≤ c.val.toNat ∧ c.val.toNat ≤ 90 at hupper
    omega
  · decide

theorem isWordPart_of_isDigit {c : Char} (h : isDigit c = true) : isWordPart c = true := by
  rw [isWordPart, h, Bool.or_true]

theorem isWordPart_of_isWordStart {c : Char} (h : isWordStart c = true) :
    isWordPart c = true := by
  rw [isWordPart, h, Bool.true_or]

/-! ## Strings -/

theorem stringReach_plain {c : Char} (hquote : c ≠ '"') (hbackslash : c ≠ '\\')
    (rest : List Char) : stringReach (c :: rest) = (stringReach rest).after 1 := by
  rw [stringReach] <;> simp_all

theorem unescape_plain {c : Char} (h : c ≠ '\\') (rest : List Char) :
    unescape (c :: rest) = c :: unescape rest := by
  rw [unescape]
  simp_all

/-- A written string reaches to its own closing quote. -/
theorem stringReach_escape (value rest : List Char) :
    stringReach (escape value ++ '"' :: rest) = ⟨true, (escape value).length + 1⟩ := by
  induction value with
  | nil => rfl
  | cons c value ih =>
    rw [escape]
    split
    case isTrue h =>
      have hpair : stringReach ('\\' :: c :: (escape value ++ '"' :: rest)) =
          (stringReach (escape value ++ '"' :: rest)).after 2 := by
        obtain rfl | rfl := h
        · rfl
        · rfl
      rw [List.cons_append, List.cons_append, hpair, ih, Reach.after]
      simp
      omega
    case isFalse h =>
      rw [not_or] at h
      rw [List.cons_append, stringReach_plain h.2 h.1, ih, Reach.after]
      simp
      omega

theorem unescape_escape (value : List Char) : unescape (escape value) = value := by
  induction value with
  | nil => rfl
  | cons c value ih =>
    rw [escape]
    split
    case isTrue h =>
      have hpair : unescape ('\\' :: c :: escape value) = c :: unescape (escape value) := by
        obtain rfl | rfl := h
        · rfl
        · rfl
      rw [hpair, ih]
    case isFalse h =>
      rw [not_or] at h
      rw [unescape_plain h.1, ih]

/-! ## One token -/

/-- The text is at its end, or goes on with a space. -/
def Separated (rest : List Char) : Prop :=
  rest = [] ∨ ∃ after, rest = ' ' :: after

/-- A run of characters ends where a separated rest begins. -/
theorem Separated.takeWhile_append {rest : List Char} (h : Separated rest) {p : Char → Bool}
    (hspace : p ' ' = false) {run : List Char} (hrun : ∀ c ∈ run, p c = true) :
    (run ++ rest).takeWhile p = run := by
  rw [List.takeWhile_append_of_pos hrun]
  obtain rfl | ⟨after, rfl⟩ := h
  · simp
  · simp [hspace]

theorem Cut.ofText_word {c : Char} {parts rest : List Char} (hc : isWordStart c = true)
    (hparts : ∀ d ∈ parts, isWordPart d = true) (hrest : Separated rest) :
    Cut.ofText c (parts ++ rest) =
      ⟨.token (.ofWord (String.ofList (c :: parts))), parts.length⟩ := by
  have hrun := hrest.takeWhile_append (p := isWordPart) rfl hparts
  simp [Cut.ofText, isBlank_of_isWordPart (isWordPart_of_isWordStart hc),
    isDigit_of_isWordStart hc, hc, hrun]

theorem Cut.ofText_digits {c : Char} {digits rest : List Char} (hc : isDigit c = true)
    (hdigits : ∀ d ∈ digits, isDigit d = true) (hrest : Separated rest) :
    Cut.ofText c (digits ++ rest) =
      ⟨.token (.int (String.ofList (c :: digits))), digits.length⟩ := by
  have hrun := hrest.takeWhile_append (p := isDigit) rfl hdigits
  simp [Cut.ofText, isBlank_of_isWordPart (isWordPart_of_isDigit hc), hc, hrun]

theorem Cut.ofText_string (value rest : List Char) :
    Cut.ofText '"' (escape value ++ '"' :: rest) =
      ⟨.token (.str (String.ofList value)), (escape value).length + 1⟩ := by
  change Cut.ofString (escape value ++ '"' :: rest) = _
  rw [Cut.ofString, stringReach_escape]
  simp [unescape_escape]

/-- The written form of a token is cut off as that token. -/
structure Token.CutBack (token : Token) (c : Char) (more : List Char) : Prop where
  written : token.written = c :: more
  notBlank : isBlank c = false
  ofText : ∀ rest, Separated rest → Cut.ofText c (more ++ rest) = ⟨.token token, more.length⟩

theorem Token.CutBack.word {token : Token} {c : Char} {parts : List Char}
    (hwritten : token.written = c :: parts) (hc : isWordStart c = true)
    (hparts : parts.all isWordPart = true)
    (hword : Token.ofWord (String.ofList (c :: parts)) = token) : token.CutBack c parts where
  written := hwritten
  notBlank := isBlank_of_isWordPart (isWordPart_of_isWordStart hc)
  ofText rest hrest := by
    rw [Cut.ofText_word hc (List.all_eq_true.1 hparts) hrest, hword]

theorem Token.CutBack.symbol {token : Token} {c : Char} {more : List Char}
    (hwritten : token.written = c :: more) (hblank : isBlank c = false)
    (hend : Cut.ofText c more = ⟨.token token, more.length⟩)
    (hspace : ∀ after, Cut.ofText c (more ++ ' ' :: after) = ⟨.token token, more.length⟩) :
    token.CutBack c more where
  written := hwritten
  notBlank := hblank
  ofText rest hrest := by
    obtain rfl | ⟨after, rfl⟩ := hrest
    · rw [List.append_nil, hend]
    · exact hspace after

theorem Token.CutBack.string (value : String) :
    (Token.str value).CutBack '"' (escape value.toList ++ ['"']) where
  written := rfl
  notBlank := rfl
  ofText rest _ := by
    rw [List.append_assoc, List.singleton_append, Cut.ofText_string, String.ofList_toList]
    simp

theorem Token.CutBack.numeral {digits : String} (h : isNumeral digits = true) :
    ∃ c more, (Token.int digits).CutBack c more := by
  unfold isNumeral at h
  split at h
  case h_1 => contradiction
  case h_2 c more heq =>
    rw [Bool.and_eq_true] at h
    refine ⟨c, more, heq, isBlank_of_isWordPart (isWordPart_of_isDigit h.1), fun rest hrest => ?_⟩
    rw [Cut.ofText_digits h.1 (List.all_eq_true.1 h.2) hrest, ← heq, String.ofList_toList]

theorem Token.CutBack.identifier {text : String} (h : isName text = true) :
    ∃ c more, (Token.name text).CutBack c more := by
  unfold isName at h
  split at h
  case h_1 => contradiction
  case h_2 c parts heq =>
    simp only [Bool.and_eq_true, Option.isNone_iff_eq_none] at h
    refine ⟨c, parts, .word heq h.1.1 h.1.2 ?_⟩
    rw [← heq, String.ofList_toList, Token.ofWord, h.2, Option.getD_none]

theorem Token.cutBack {token : Token} (h : token.writable = true) :
    ∃ c more, token.CutBack c more := by
  cases token with
  | name text => exact Token.CutBack.identifier h
  | int digits => exact Token.CutBack.numeral h
  | str value => exact ⟨_, _, .string value⟩
  | base type => cases type <;> exact ⟨_, _, .word rfl rfl rfl (by decide)⟩
  | bool value => cases value <;> exact ⟨_, _, .word rfl rfl rfl (by decide)⟩
  | kwVar | kwFn | kwIf | kwThen | kwElse => exact ⟨_, _, .word rfl rfl rfl (by decide)⟩
  | plus | minus | star | slash | percent | assign | equal | notEqual | less | greater | lessEq
  | greaterEq | and | or | not | colon | arrow | pipe | leftParen | rightParen | leftBrace
  | rightBrace | semicolon | comma => exact ⟨_, _, .symbol rfl rfl rfl fun _ => rfl⟩

/-! ## Whole texts -/

/-- Tokens at the places where they are written, from byte `start` on. -/
def placed (start : Nat) : List Token → List Located
  | [] => []
  | token :: rest =>
    let stop := start + byteLength token.written
    ⟨token, ⟨start, stop⟩⟩ :: placed (stop + 1) rest

theorem placed_tokens (start : Nat) (ts : List Token) : (placed start ts).map (·.token) = ts := by
  induction ts generalizing start with
  | nil => rfl
  | cons token ts ih =>
    rw [placed, List.map_cons, ih]

theorem Lexeme.scan_token {token : Token} (h : token.writable = true) (start : Nat)
    {rest : List Char} (hrest : Separated rest) :
    Lexeme.scan start (token.written ++ rest) =
      ⟨.token token, token.written, ⟨start, start + byteLength token.written⟩⟩ ::
        Lexeme.scan (start + byteLength token.written) rest := by
  obtain ⟨c, more, hcut⟩ := Token.cutBack h
  rw [hcut.written, List.cons_append, Lexeme.scan, hcut.ofText rest hrest]
  simp

/-- A space before a token is skipped by itself. -/
theorem Lexeme.scan_space {token : Token} (h : token.writable = true) (start : Nat)
    (rest : List Char) :
    Lexeme.scan start (' ' :: (token.written ++ rest)) =
      ⟨.skipped, [' '], ⟨start, start + 1⟩⟩ :: Lexeme.scan (start + 1) (token.written ++ rest) := by
  obtain ⟨c, more, hcut⟩ := Token.cutBack h
  have hspace : Cut.ofText ' ' (token.written ++ rest) = ⟨.skipped, 0⟩ := by
    rw [Cut.ofText, if_pos (by rfl : isBlank ' ' = true), hcut.written, List.cons_append,
      List.takeWhile_cons]
    simp [hcut.notBlank]
  rw [Lexeme.scan, hspace]
  rfl

theorem writeTokens_cons (token : Token) (rest : List Token) :
    ∃ after, writeTokens (token :: rest) = token.written ++ after := by
  cases rest with
  | nil => exact ⟨[], by simp [writeTokens]⟩
  | cons next rest => exact ⟨' ' :: writeTokens (next :: rest), rfl⟩

/-- The lexemes of written tokens are these tokens and the spaces between them. -/
theorem Lexeme.scan_writeTokens {ts : List Token} (h : ∀ token ∈ ts, token.writable = true)
    (start : Nat) :
    (Lexeme.scan start (writeTokens ts)).filterMap Lexeme.token? = placed start ts ∧
      (Lexeme.scan start (writeTokens ts)).filterMap Lexeme.stray? = [] := by
  induction ts generalizing start with
  | nil =>
    rw [writeTokens, Lexeme.scan]
    exact ⟨rfl, rfl⟩
  | cons token ts ih =>
    have htoken := h token (by simp)
    cases ts with
    | nil =>
      have hscan := Lexeme.scan_token htoken start (.inl rfl)
      rw [List.append_nil, Lexeme.scan] at hscan
      rw [writeTokens, hscan]
      exact ⟨rfl, rfl⟩
    | cons next ts =>
      have hnext := h next (by simp)
      obtain ⟨after, hafter⟩ := writeTokens_cons next ts
      obtain ⟨htokens, hstrays⟩ := ih (fun t ht => h t (by simp [ht]))
        (start + byteLength token.written + 1)
      have hscan : Lexeme.scan start (writeTokens (token :: next :: ts)) =
          ⟨.token token, token.written, ⟨start, start + byteLength token.written⟩⟩ ::
          ⟨.skipped, [' '], ⟨start + byteLength token.written,
            start + byteLength token.written + 1⟩⟩ ::
          Lexeme.scan (start + byteLength token.written + 1) (writeTokens (next :: ts)) := by
        rw [writeTokens, Lexeme.scan_token htoken start (.inr ⟨_, rfl⟩), hafter,
          Lexeme.scan_space hnext]
        simp
      rw [hscan]
      simp only [List.filterMap_cons, Lexeme.token?, Lexeme.stray?, htokens, hstrays]
      exact ⟨rfl, trivial⟩

theorem tokens_written {ts : List Token} (h : ∀ token ∈ ts, token.writable = true) :
    tokens (String.ofList (writeTokens ts)) = placed 0 ts := by
  rw [tokens, lexemes, String.toList_ofList]
  exact (Lexeme.scan_writeTokens h 0).1

theorem strays_written {ts : List Token} (h : ∀ token ∈ ts, token.writable = true) :
    strays (String.ofList (writeTokens ts)) = [] := by
  rw [strays, lexemes, String.toList_ofList]
  exact (Lexeme.scan_writeTokens h 0).2

end TagLang
