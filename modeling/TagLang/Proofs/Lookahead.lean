import TagLang.Proofs.Writing

/-!
# What follows a lexeme

A lexeme is as long as it can be, so what follows it matters, but only through one character.

* `takeWhile_append_congr`, `stringReach_take`, `commentReach_take` and `symbolAt_congr` are
  about the parts of the scanner that look ahead.
* `Cut.continues` tells which characters a lexeme would go on with, and `Cut.Form` the four ways
  in which a lexeme is cut off.
* `Cut.not_continues` says that the next character is none of those, and `Cut.ofText_congr` that
  the lexeme is the same before every text that starts with none of them.
* `Cut.continues_blank` tells which lexemes end at a blank.
-/

namespace TagLang

/-! ## Runs of characters -/

theorem takeWhile_append_eq_iff {p : Char → Bool} {taken tail : List Char} :
    (taken ++ tail).takeWhile p = taken ↔
      (∀ c ∈ taken, p c = true) ∧ ∀ d, tail.head? = some d → p d = false := by
  induction taken with
  | nil =>
    cases tail with
    | nil => simp
    | cons d tail => cases hd : p d <;> simp [hd]
  | cons c taken ih =>
    rw [List.cons_append, List.takeWhile_cons]
    by_cases hc : p c = true
    · simp [hc, ih]
    · simp [hc]

/-- A run with the length of `taken` is `taken`. -/
theorem takeWhile_append_eq {p : Char → Bool} {taken tail : List Char}
    (h : ((taken ++ tail).takeWhile p).length = taken.length) :
    (taken ++ tail).takeWhile p = taken := by
  rw [List.prefix_iff_eq_take.1 (List.takeWhile_prefix p), h, List.take_left]

/-- A run stays as it is while no character of its class follows. -/
theorem takeWhile_append_congr {p : Char → Bool} {taken tail tail' : List Char}
    (h : ((taken ++ tail).takeWhile p).length = taken.length)
    (hnext : ∀ d, tail'.head? = some d → p d = false) :
    (taken ++ tail').takeWhile p = (taken ++ tail).takeWhile p := by
  have htaken := takeWhile_append_eq h
  rw [htaken, takeWhile_append_eq_iff]
  exact ⟨(takeWhile_append_eq_iff.1 htaken).1, hnext⟩

/-! ## Delimited forms -/

theorem Reach.after_eq_closed {n total : Nat} {reach : Reach}
    (h : reach.after n = ⟨true, total⟩) : ∃ m, reach = ⟨true, m⟩ ∧ total = m + n := by
  obtain ⟨closed, length⟩ := reach
  cases h
  exact ⟨length, rfl, Nat.add_comm n length⟩

theorem stringReach_pair {c : Char} (h : c ≠ '\n') (rest : List Char) :
    stringReach ('\\' :: c :: rest) = (stringReach rest).after 2 := by
  rw [stringReach]
  simp [h]

theorem commentReach_pair {c : Char} (h : c ≠ '/') (rest : List Char) :
    commentReach ('*' :: c :: rest) = (commentReach rest).after 2 := by
  rw [commentReach]
  simp [h]

theorem commentReach_plain {c : Char} (h : c ≠ '*') (rest : List Char) :
    commentReach (c :: rest) = (commentReach rest).after 1 := by
  rw [commentReach] <;> simp [h]

/-- A character that is read on its own is not the one that takes the next with it. -/
theorem ne_of_alone {c special : Char} {rest : List Char} (hlast : c = special → rest = [] → False)
    (hpair : ∀ next more, c = special → rest = next :: more → False) : c ≠ special := by
  intro hc
  cases rest with
  | nil => exact hlast hc rfl
  | cons next more => exact hpair next more hc rfl

theorem stringReach_le (rest : List Char) : (stringReach rest).length ≤ rest.length := by
  fun_induction stringReach rest <;> simp_all [Reach.after] <;> omega

theorem commentReach_le (rest : List Char) : (commentReach rest).length ≤ rest.length := by
  fun_induction commentReach rest <;> simp_all [Reach.after] <;> omega

/-- A string that is closed does not depend on what follows it. -/
theorem stringReach_take {text : List Char} {n : Nat} (h : stringReach text = ⟨true, n⟩)
    (tail : List Char) : stringReach (text.take n ++ tail) = ⟨true, n⟩ := by
  fun_induction stringReach text generalizing n with
  | case1 => cases h
  | case2 text =>
    cases h
    rfl
  | case3 => cases h
  | case4 text => cases h
  | case5 c rest hc ih =>
    obtain ⟨m, hrest, rfl⟩ := Reach.after_eq_closed h
    rw [List.take_succ_cons, List.take_succ_cons, List.cons_append, List.cons_append,
      stringReach_pair hc, ih hrest, Reach.after, Nat.add_comm]
  | case6 c rest hquote hlast _ hpair ih =>
    have hbackslash : c ≠ '\\' := ne_of_alone hlast hpair
    obtain ⟨m, hrest, rfl⟩ := Reach.after_eq_closed h
    rw [List.take_succ_cons, List.cons_append, stringReach_plain hquote hbackslash, ih hrest,
      Reach.after, Nat.add_comm]

/-- A block comment that is closed does not depend on what follows it. -/
theorem commentReach_take {text : List Char} {n : Nat} (h : commentReach text = ⟨true, n⟩)
    (tail : List Char) : commentReach (text.take n ++ tail) = ⟨true, n⟩ := by
  fun_induction commentReach text generalizing n with
  | case1 => cases h
  | case2 => cases h
  | case3 text =>
    cases h
    rfl
  | case4 c rest hc ih =>
    obtain ⟨m, hrest, rfl⟩ := Reach.after_eq_closed h
    rw [List.take_succ_cons, List.take_succ_cons, List.cons_append, List.cons_append,
      commentReach_pair hc, ih hrest, Reach.after, Nat.add_comm]
  | case5 c rest hlast _ hpair ih =>
    have hstar : c ≠ '*' := ne_of_alone hlast hpair
    obtain ⟨m, hrest, rfl⟩ := Reach.after_eq_closed h
    rw [List.take_succ_cons, List.cons_append, commentReach_plain hstar, ih hrest, Reach.after,
      Nat.add_comm]

/-! ## Symbols -/

theorem symbolAt_le {c : Char} {next : Option Char} {symbol : Token} {more : Nat}
    (h : symbolAt c next = some (symbol, more)) : more ≤ next.toList.length := by
  unfold symbolAt at h
  split at h <;> cases h <;> simp

/-- Whether the symbol that starts with `c` takes the character after it. -/
def takesNext (c next : Char) : Bool :=
  (symbolAt c (some next)).any (·.2 ≠ 0)

theorem symbolAt_congr {c : Char} {next next' : Option Char} {symbol : Token}
    (h : symbolAt c next = some (symbol, 0))
    (hnext : ∀ d, next' = some d → takesNext c d = false) :
    symbolAt c next' = some (symbol, 0) := by
  have hnone : symbolAt c none = some (symbol, 0) := by
    unfold symbolAt at h
    split at h <;> cases h <;> rfl
  cases next' with
  | none => exact hnone
  | some d =>
    have hd := hnext d rfl
    unfold takesNext at hd
    revert hnone hd
    fun_cases symbolAt c (some d) <;> simp [symbolAt]

theorem takesNext_of_isBlank {c d : Char} (h : isBlank d = true) : takesNext c d = false := by
  unfold takesNext symbolAt
  split <;> simp_all [isBlank]

/-! ## The head of a text -/

namespace Cut

/-- Whether a lexeme that starts with a slash would go on if `next` came after it. -/
def slashContinues : List Char → Char → Bool
  | [], next => next = '/' || next = '*'
  | second :: _, next => second = '/' && next ≠ '\n'

/-- Whether the lexeme `c :: taken` would go on if `next` came after it. -/
def continues (c : Char) (taken : List Char) (next : Char) : Bool :=
  if isBlank c then isBlank next
  else if isDigit c then isDigit next
  else if isWordStart c then isWordPart next
  else if c = '"' then false
  else if c = '/' then slashContinues taken next
  else taken.isEmpty && takesNext c next

/-- An operator or a mark, whose first character has been read. -/
def ofSymbol (c : Char) (rest : List Char) : Cut :=
  match symbolAt c rest.head? with
  | some (symbol, more) => ⟨.token symbol, more⟩
  | none => ⟨.stray, 0⟩

/-- The four ways in which the head of a text that starts with `c` is cut off. -/
inductive Form (c : Char) : Prop where
  | run (p : Char → Bool) (piece : List Char → Piece)
      (hcut : ∀ rest, ofText c rest = ⟨piece (rest.takeWhile p), (rest.takeWhile p).length⟩)
      (hnext : ∀ taken, continues c taken = p)
  | string (hcut : ∀ rest, ofText c rest = ofString rest)
      (hnext : ∀ taken d, continues c taken d = false)
  | slash (hcut : ∀ rest, ofText c rest = ofSlash rest)
      (hnext : ∀ taken, continues c taken = slashContinues taken)
  | symbol (hcut : ∀ rest, ofText c rest = ofSymbol c rest)
      (hnext : ∀ taken d, continues c taken d = (taken.isEmpty && takesNext c d))

theorem form (c : Char) : Form c := by
  by_cases hblank : isBlank c = true
  · exact .run isBlank (fun _ => .skipped) (by simp [ofText, hblank])
      (fun _ => funext fun _ => by simp [continues, hblank])
  by_cases hdigit : isDigit c = true
  · exact .run isDigit (fun digits => .token (.int (String.ofList (c :: digits))))
      (by simp [ofText, hblank, hdigit])
      (fun _ => funext fun _ => by simp [continues, hblank, hdigit])
  by_cases hword : isWordStart c = true
  · exact .run isWordPart (fun parts => .token (.ofWord (String.ofList (c :: parts))))
      (by simp [ofText, hblank, hdigit, hword])
      (fun _ => funext fun _ => by simp [continues, hblank, hdigit, hword])
  by_cases hquote : c = '"'
  · subst hquote
    exact .string (fun _ => rfl) (fun _ _ => rfl)
  by_cases hslash : c = '/'
  · subst hslash
    exact .slash (fun _ => rfl) (fun _ => rfl)
  · refine .symbol (fun rest => ?_) (fun taken d => ?_)
    · rw [ofText, if_neg hblank, if_neg hdigit, if_neg hword, if_neg hquote, if_neg hslash]
      rfl
    · simp [continues, hblank, hdigit, hword, hquote, hslash]

theorem more_le (c : Char) (rest : List Char) : (ofText c rest).more ≤ rest.length := by
  have hrun (p : Char → Bool) (text : List Char) : (text.takeWhile p).length ≤ text.length :=
    (List.takeWhile_prefix p).length_le
  cases form c with
  | run p piece hcut hnext =>
    rw [hcut]
    exact hrun p rest
  | string hcut hnext =>
    rw [hcut]
    exact stringReach_le rest
  | slash hcut hnext =>
    rw [hcut]
    fun_cases ofSlash rest with
    | case1 line =>
      have hline := hrun (· ≠ '\n') line
      show 1 + _ ≤ line.length + 1
      omega
    | case2 body =>
      have hbody := commentReach_le body
      show 1 + (commentReach body).length ≤ body.length + 1
      omega
    | case3 => exact Nat.zero_le _
  | symbol hcut hnext =>
    rw [hcut]
    unfold ofSymbol
    split
    case h_1 symbol more hsymbol =>
      have hhead : rest.head?.toList.length ≤ rest.length := by cases rest <;> simp
      exact Nat.le_trans (symbolAt_le hsymbol) hhead
    case h_2 => exact Nat.zero_le _

variable {c : Char} {taken tail tail' : List Char}

theorem ofString_congr (hmore : (ofString (taken ++ tail)).more = taken.length)
    (hpiece : (ofString (taken ++ tail)).piece ≠ .stray) (tail' : List Char) :
    ofString (taken ++ tail') = ofString (taken ++ tail) := by
  have hclosed : (stringReach (taken ++ tail)).closed = true := by
    cases h : (stringReach (taken ++ tail)).closed with
    | true => rfl
    | false => simp [ofString, h] at hpiece
  have hreach : stringReach (taken ++ tail) = ⟨true, taken.length⟩ := by
    rw [← hclosed, ← hmore]
    rfl
  have hreach' := stringReach_take hreach tail'
  rw [List.take_left] at hreach'
  unfold ofString
  rw [hreach, hreach']
  simp [List.take_append_of_le_length]

theorem ofSlash_division (h : ∀ d, tail.head? = some d → slashContinues [] d = false) :
    ofSlash tail = ⟨.token .slash, 0⟩ := by
  cases tail with
  | nil => rfl
  | cons d tail =>
    have hd := h d rfl
    simp only [slashContinues, Bool.or_eq_false_iff, decide_eq_false_iff_not] at hd
    rw [ofSlash] <;> simp [hd]

theorem ofSlash_next (hmore : (ofSlash (taken ++ tail)).more = taken.length) :
    ∀ d, tail.head? = some d → slashContinues taken d = false := by
  intro d hd
  cases taken with
  | nil =>
    cases tail with
    | nil => contradiction
    | cons e tail =>
      obtain rfl := Option.some.inj hd
      by_cases hline : e = '/'
      · subst hline
        simp [ofSlash] at hmore
      by_cases hblock : e = '*'
      · subst hblock
        simp [ofSlash] at hmore
      simp [slashContinues, hline, hblock]
  | cons second taken =>
    by_cases hline : second = '/'
    · subst hline
      simp only [List.cons_append, ofSlash, List.length_cons, Nat.add_comm 1,
        Nat.add_right_cancel_iff] at hmore
      have hstop := (takeWhile_append_eq_iff.1 (takeWhile_append_eq hmore)).2 d hd
      simp only [slashContinues, decide_true, Bool.true_and]
      exact hstop
    · simp [slashContinues, hline]

theorem ofSlash_congr (hmore : (ofSlash (taken ++ tail)).more = taken.length)
    (hpiece : (ofSlash (taken ++ tail)).piece ≠ .stray)
    (hnext : ∀ d, tail'.head? = some d → slashContinues taken d = false) :
    ofSlash (taken ++ tail') = ofSlash (taken ++ tail) := by
  cases taken with
  | nil =>
    have htail := ofSlash_next hmore
    rw [List.nil_append, List.nil_append, ofSlash_division hnext, ofSlash_division htail]
  | cons second taken =>
    by_cases hline : second = '/'
    · subst hline
      simp only [List.cons_append, ofSlash, List.length_cons, Nat.add_comm 1,
        Nat.add_right_cancel_iff] at hmore ⊢
      rw [takeWhile_append_congr hmore]
      intro d hd
      simpa [slashContinues] using hnext d hd
    by_cases hblock : second = '*'
    · subst hblock
      have hclosed : (commentReach (taken ++ tail)).closed = true := by
        cases h : (commentReach (taken ++ tail)).closed with
        | true => rfl
        | false => simp [ofSlash, h] at hpiece
      have hlength : (commentReach (taken ++ tail)).length = taken.length := by
        simpa [ofSlash, Nat.add_comm 1] using hmore
      have hreach : commentReach (taken ++ tail) = ⟨true, taken.length⟩ := by
        rw [← hclosed, ← hlength]
      have hreach' := commentReach_take hreach tail'
      rw [List.take_left] at hreach'
      simp only [List.cons_append, ofSlash, hreach, hreach']
    · exfalso
      rw [List.cons_append, ofSlash_division] at hmore
      · contradiction
      · simp [slashContinues, hline, hblock]

theorem ofSymbol_next (hmore : (ofSymbol c (taken ++ tail)).more = taken.length)
    (hpiece : (ofSymbol c (taken ++ tail)).piece ≠ .stray) :
    ∀ d, tail.head? = some d → (taken.isEmpty && takesNext c d) = false := by
  intro d hd
  cases taken with
  | cons => rfl
  | nil =>
    unfold ofSymbol at hmore hpiece
    rw [List.nil_append, hd] at hmore hpiece
    cases hsymbol : symbolAt c (some d) with
    | none => simp [hsymbol] at hpiece
    | some entry =>
      have hzero : entry.2 = 0 := by simpa [hsymbol] using hmore
      simp [takesNext, hsymbol, hzero]

theorem ofSymbol_congr (hmore : (ofSymbol c (taken ++ tail)).more = taken.length)
    (hpiece : (ofSymbol c (taken ++ tail)).piece ≠ .stray)
    (hnext : ∀ d, tail'.head? = some d → (taken.isEmpty && takesNext c d) = false) :
    ofSymbol c (taken ++ tail') = ofSymbol c (taken ++ tail) := by
  unfold ofSymbol at hmore hpiece ⊢
  cases taken with
  | cons => rfl
  | nil =>
    rw [List.nil_append] at hmore hpiece ⊢
    cases hsymbol : symbolAt c tail.head? with
    | none => simp [hsymbol] at hpiece
    | some entry =>
      obtain ⟨symbol, more⟩ := entry
      obtain rfl : more = 0 := by simpa [hsymbol] using hmore
      rw [List.nil_append, hsymbol, symbolAt_congr hsymbol hnext]

/-- A lexeme is as long as it can be: it would not go on with the next character. -/
theorem not_continues (hmore : (ofText c (taken ++ tail)).more = taken.length)
    (hpiece : (ofText c (taken ++ tail)).piece ≠ .stray) :
    ∀ d, tail.head? = some d → continues c taken d = false := by
  cases form c with
  | run p piece hcut hnext =>
    rw [hcut] at hmore
    rw [hnext]
    exact (takeWhile_append_eq_iff.1 (takeWhile_append_eq hmore)).2
  | string hcut hnext => exact fun d _ => hnext taken d
  | slash hcut hnext =>
    rw [hcut] at hmore
    rw [hnext]
    exact ofSlash_next hmore
  | symbol hcut hnext =>
    rw [hcut] at hmore hpiece
    simp only [hnext]
    exact ofSymbol_next hmore hpiece

/-- A lexeme stays as it is before a text that does not make it go on. -/
theorem ofText_congr (hmore : (ofText c (taken ++ tail)).more = taken.length)
    (hpiece : (ofText c (taken ++ tail)).piece ≠ .stray)
    (hstop : ∀ d, tail'.head? = some d → continues c taken d = false) :
    ofText c (taken ++ tail') = ofText c (taken ++ tail) := by
  cases form c with
  | run p piece hcut hnext =>
    rw [hcut] at hmore
    rw [hnext] at hstop
    rw [hcut, hcut, takeWhile_append_congr hmore hstop]
  | string hcut hnext =>
    rw [hcut] at hmore hpiece ⊢
    rw [hcut, ofString_congr hmore hpiece tail']
  | slash hcut hnext =>
    rw [hcut] at hmore hpiece ⊢
    rw [hnext] at hstop
    rw [hcut, ofSlash_congr hmore hpiece hstop]
  | symbol hcut hnext =>
    rw [hcut] at hmore hpiece ⊢
    simp only [hnext] at hstop
    rw [hcut, ofSymbol_congr hmore hpiece hstop]

theorem exists_taken (c : Char) (text : List Char) :
    ∃ taken tail, text = taken ++ tail ∧ (ofText c (taken ++ tail)).more = taken.length := by
  refine ⟨text.take (ofText c text).more, text.drop (ofText c text).more, ?_, ?_⟩
  · rw [List.take_append_drop]
  · rw [List.take_append_drop, List.length_take_of_le (more_le c text)]

/-- Only a run of blanks and a line comment go on with a blank.  The comment does so with
every character but a line feed. -/
theorem continues_blank (hmore : (ofText c (taken ++ tail)).more = taken.length)
    (hpiece : (ofText c (taken ++ tail)).piece ≠ .stray) (hrun : isBlank c = false)
    (hnext : (ofText c (taken ++ tail)).piece ≠ .skipped ∨
      ∃ e, tail.head? = some e ∧ isBlank e = false)
    {d : Char} (hd : isBlank d = true) : continues c taken d = false := by
  have hpart := isWordPart_of_isBlank hd
  have hdigit : isDigit d = false := (Bool.or_eq_false_iff.1 hpart).2
  by_cases hline : c = '/' ∧ ∃ line, taken = '/' :: line
  · exfalso
    obtain ⟨rfl, line, rfl⟩ := hline
    rcases hnext with htoken | ⟨e, he, hblank⟩
    · exact htoken rfl
    · have hfeed : decide (e ≠ '\n') = false := not_continues hmore hpiece e he
      rw [decide_eq_false_iff_not, Decidable.not_not] at hfeed
      subst hfeed
      contradiction
  · have hslash : c = '/' → slashContinues taken d = false := by
      intro hc
      cases taken with
      | nil =>
        have hd' : d ≠ '/' ∧ d ≠ '*' := by constructor <;> rintro rfl <;> contradiction
        simp [slashContinues, hd']
      | cons second taken =>
        have hsecond : second ≠ '/' := fun h => hline ⟨hc, taken, by rw [h]⟩
        simp [slashContinues, hsecond]
    simp +contextual [continues, hrun, hdigit, hpart, takesNext_of_isBlank hd, hslash]

end Cut

end TagLang
