import Mathlib.Algebra.Ring.Parity
import Mathlib.Data.List.DropRight
import Mathlib.Data.List.Forall2
import TagLang.Proofs.Spacing

/-!
# Where block comments end

In a block comment a star takes the next character with it.  So a comment does not always end
at the first `*/`: what matters are the stars right before it.

* `commentReach_body` says how far a comment reaches.  Its body up to the last stars is passed
  by `commentReach_append`, and the stars are passed in pairs by `commentReach_stars`.
* `Lexeme.kept_comment` says what is left of a text that starts with a comment.
* `Lexeme.Moved` relates the lexemes of two texts that differ in their places, and
  `Reading.ofSource_moved` takes that to tokens and diagnostics.
* `Lexeme.kept_skipped` and `Lexeme.kept_swallowed` are the two ways a comment can go on behind
  its first `*/`.  `read_after_comment` is what they say of sources.
-/

namespace TagLang

/-! ## The reach of a comment -/

@[simp]
theorem Reach.after_after (first second : Nat) (reach : Reach) :
    (reach.after second).after first = reach.after (first + second) := by
  simp [Reach.after, Nat.add_assoc]

theorem getLast?_ne_of_suffix {text rest : List Char} {c : Char} (h : rest <:+ text)
    (hlast : text.getLast? ≠ some c) : rest.getLast? ≠ some c := by
  obtain ⟨before, rfl⟩ := h
  intro hrest
  rw [List.getLast?_append, hrest] at hlast
  exact hlast rfl

/-- Text that neither closes the comment nor ends with a star is passed over. -/
theorem commentReach_append {body : List Char} (hopen : ¬['*', '/'] <:+: body)
    (hlast : body.getLast? ≠ some '*') (text : List Char) :
    commentReach (body ++ text) = (commentReach text).after body.length := by
  fun_induction commentReach body with
  | case1 => simp [Reach.after]
  | case2 => exact absurd rfl hlast
  | case3 rest => exact absurd ⟨[], rest, rfl⟩ hopen
  | case4 c rest hc ih =>
    have hrest : rest <:+ '*' :: c :: rest := ⟨['*', c], rfl⟩
    rw [List.cons_append, List.cons_append, commentReach_pair hc,
      ih (fun h => hopen (h.trans hrest.isInfix)) (getLast?_ne_of_suffix hrest hlast),
      Reach.after_after, List.length_cons, List.length_cons]
    congr 1
    omega
  | case5 c rest hstar _ hpair ih =>
    have hc : c ≠ '*' := ne_of_alone hstar hpair
    have hrest : rest <:+ c :: rest := ⟨[c], rfl⟩
    rw [List.cons_append, commentReach_plain hc,
      ih (fun h => hopen (h.trans hrest.isInfix)) (getLast?_ne_of_suffix hrest hlast),
      Reach.after_after, List.length_cons]
    congr 1
    omega

/-- Stars are passed in pairs. -/
theorem commentReach_stars (pairs : Nat) (text : List Char) :
    commentReach (List.replicate (pairs + pairs) '*' ++ text) =
      (commentReach text).after (pairs + pairs) := by
  induction pairs with
  | zero => simp [Reach.after]
  | succ pairs ih =>
    have hcount : pairs + 1 + (pairs + 1) = pairs + pairs + 1 + 1 := by omega
    rw [hcount, List.replicate_succ, List.replicate_succ, List.cons_append, List.cons_append,
      commentReach_pair (by decide), ih, Reach.after_after]
    congr 1
    omega

/-- The number of stars at the end of a text. -/
def closingStars (text : List Char) : Nat :=
  (text.rtakeWhile (· = '*')).length

/-- The stars at the end of a text are all that it ends with. -/
theorem exists_closingStars (text : List Char) :
    ∃ before, text = before ++ List.replicate (closingStars text) '*' ∧
      before.getLast? ≠ some '*' := by
  refine ⟨text.rdropWhile (· = '*'), ?_, ?_⟩
  · have hstars : text.rtakeWhile (· = '*') = List.replicate (closingStars text) '*' := by
      rw [List.eq_replicate_iff]
      exact ⟨rfl, fun c hc => by simpa using List.mem_rtakeWhile_imp hc⟩
    rw [← hstars, List.rdropWhile_append_rtakeWhile]
  · intro hlast
    have hne : text.rdropWhile (· = '*') ≠ [] := by
      intro hnil
      rw [hnil] at hlast
      contradiction
    have hother := List.rdropWhile_last_not (· = '*') text hne
    rw [List.getLast?_eq_some_getLast hne, Option.some.injEq] at hlast
    exact hother (decide_eq_true hlast)

/-- A comment whose body does not hold `*/` ends behind the body, unless an odd star is left
over that takes the star of the closing `*/` with it. -/
theorem commentReach_body {body : List Char} (hopen : ¬['*', '/'] <:+: body) (rest : List Char) :
    commentReach (body ++ '*' :: '/' :: rest) =
      if Even (closingStars body) then ⟨true, body.length + 2⟩
      else (commentReach rest).after (body.length + 2) := by
  obtain ⟨before, hbody, hlast⟩ := exists_closingStars body
  generalize closingStars body = stars at hbody ⊢
  subst hbody
  have hbefore := List.prefix_append before (List.replicate stars '*')
  have hpassed := commentReach_append (fun h => hopen (h.trans hbefore.isInfix)) hlast
  rw [List.append_assoc, hpassed, List.length_append, List.length_replicate]
  split
  · rename_i heven
    obtain ⟨pairs, rfl⟩ := heven
    rw [commentReach_stars, commentReach, Reach.after_after, Reach.after]
  · rename_i hodd
    obtain ⟨pairs, rfl⟩ := Nat.not_even_iff_odd.1 hodd
    rw [Nat.two_mul, List.replicate_succ', List.append_assoc, commentReach_stars,
      List.singleton_append, commentReach_pair (by decide), commentReach_plain (by decide)]
    simp only [Reach.after_after]
    congr 1

/-! ## Texts that start with a comment -/

namespace Lexeme

/-- The lexeme of a comment that is not closed. -/
def openComment (start : Nat) (text : List Char) : Lexeme :=
  ⟨.stray, '/' :: '*' :: text, ⟨start, start + byteLength ('/' :: '*' :: text)⟩⟩

/-- A comment is skipped if it is closed, and the text behind it is read on its own. -/
theorem kept_comment (start : Nat) (text : List Char) :
    let reach := commentReach text
    let taken := text.take reach.length
    kept start ('/' :: '*' :: text) =
      (if reach.closed then [] else [openComment start taken]) ++
        kept (start + byteLength ('/' :: '*' :: taken)) (text.drop reach.length) := by
  intro reach taken
  have hle : reach.length ≤ text.length := commentReach_le text
  have hsplit : '*' :: text = ('*' :: taken) ++ text.drop reach.length := by
    rw [List.cons_append, List.take_append_drop]
  have hcut : Cut.ofText '/' ('*' :: text) =
      ⟨if reach.closed then .skipped else .stray, 1 + reach.length⟩ := rfl
  have hmore : (Cut.ofText '/' ('*' :: taken ++ text.drop reach.length)).more =
      ('*' :: taken).length := by
    rw [← hsplit, hcut, List.length_cons, List.length_take]
    dsimp only
    omega
  have hkept := kept_cons start hmore
  rw [← hsplit, hcut] at hkept
  rw [hkept]
  congr 1
  cases reach.closed <;> rfl

end Lexeme

/-! ## Readings -/

/-- What is read in a source: the tokens, and what is reported on stray text. -/
structure Reading where
  tokens : List Located
  diagnostics : List Diagnostic
  deriving DecidableEq

def Reading.ofSource (source : String) : Reading :=
  ⟨TagLang.tokens source, (strays source).map Stray.diagnostic⟩

/-- The reading in which everything is at another place. -/
def Reading.mapSpans (f : Span → Span) (reading : Reading) : Reading :=
  ⟨reading.tokens.map fun t => { t with span := f t.span },
    reading.diagnostics.map (·.mapSpans f)⟩

namespace Lexeme

/-- The second lexeme is the first one at another place.  Of their texts only the first
characters have to be the same. -/
structure Moved (f : Span → Span) (lexeme lexeme' : Lexeme) : Prop where
  piece : lexeme'.piece = lexeme.piece
  head : lexeme'.text.head? = lexeme.text.head?
  span : lexeme'.span = f lexeme.span

theorem stray?_eq (lexeme : Lexeme) :
    lexeme.stray? =
      if lexeme.piece = .stray then lexeme.text.head?.map (⟨·, lexeme.span⟩) else none := by
  obtain ⟨piece, text, span⟩ := lexeme
  cases piece <;> cases text <;> rfl

variable {f : Span → Span} {lexeme lexeme' : Lexeme}

theorem Moved.token? (h : Moved f lexeme lexeme') :
    lexeme'.token? = lexeme.token?.map fun t => { t with span := f t.span } := by
  rw [Lexeme.token?, Lexeme.token?, h.piece, h.span]
  cases lexeme.piece <;> rfl

theorem Moved.stray? (h : Moved f lexeme lexeme') :
    lexeme'.stray? = lexeme.stray?.map fun stray => { stray with span := f stray.span } := by
  rw [stray?_eq, stray?_eq, h.piece, h.head, h.span]
  split
  · rw [Option.map_map]
    rfl
  · rfl

theorem filterMap_moved {β : Type} {read : Lexeme → Option β} {g : β → β}
    (hread : ∀ lexeme lexeme', Moved f lexeme lexeme' → read lexeme' = (read lexeme).map g)
    {lexemes lexemes' : List Lexeme} (h : List.Forall₂ (Moved f) lexemes lexemes') :
    lexemes'.filterMap read = (lexemes.filterMap read).map g := by
  induction h with
  | nil => rfl
  | cons hfirst _ ih =>
    rw [List.filterMap_cons, List.filterMap_cons, hread _ _ hfirst, ih]
    cases read _ <;> rfl

/-- A text that stands later has the same lexemes, later. -/
theorem kept_moved {offset amount start : Nat} (h : offset ≤ start) (text : List Char) :
    List.Forall₂ (Moved (Span.spread offset amount)) (kept start text)
      (kept (start + amount) text) := by
  rw [kept_add h, List.forall₂_map_right_iff, List.forall₂_same]
  intro lexeme hmem
  exact ⟨rfl, rfl, (Span.spread_eq_gap (start_of_mem_kept hmem).2).symm⟩

end Lexeme

/-- Moved lexemes are read as moved tokens and moved diagnostics. -/
theorem Reading.ofSource_moved {f : Span → Span} {source source' : String}
    (h : List.Forall₂ (Lexeme.Moved f) (Lexeme.kept 0 source.toList)
      (Lexeme.kept 0 source'.toList)) :
    ofSource source' = (ofSource source).mapSpans f := by
  have htokens := Lexeme.filterMap_moved (fun _ _ => Lexeme.Moved.token?) h
  have hstrays := Lexeme.filterMap_moved (fun _ _ => Lexeme.Moved.stray?) h
  rw [ofSource, ofSource, tokens_eq_kept, tokens_eq_kept, strays_eq_kept, strays_eq_kept,
    htokens, hstrays, mapSpans, List.map_map, List.map_map]
  rfl

/-! ## Sources -/

namespace Lexeme

variable {body : List Char}

theorem byteLength_open (text : List Char) :
    byteLength ('/' :: '*' :: text) = byteLength text + 2 := by
  have hslash : '/'.utf8Size = 1 := rfl
  have hstar : '*'.utf8Size = 1 := rfl
  rw [byteLength_cons, byteLength_cons, hslash, hstar]
  omega

theorem byteLength_commented (body rest : List Char) :
    byteLength ('/' :: '*' :: (body ++ '*' :: '/' :: rest)) =
      byteLength ('/' :: '*' :: rest) + (byteLength body + 2) := by
  have hclose : byteLength ('*' :: '/' :: rest) = byteLength ('/' :: '*' :: rest) := by
    simp only [byteLength_cons]
    omega
  rw [byteLength_open, byteLength_append, hclose]
  omega

/-- A comment that ends at its first `*/` is skipped. -/
theorem kept_skipped (hopen : ¬['*', '/'] <:+: body) (heven : Even (closingStars body))
    (rest : List Char) :
    List.Forall₂ (Moved (Span.spread 0 (byteLength ('/' :: '*' :: (body ++ ['*', '/'])))))
      (kept 0 rest) (kept 0 ('/' :: '*' :: (body ++ '*' :: '/' :: rest))) := by
  have hkept := kept_comment 0 (body ++ '*' :: '/' :: rest)
  rw [commentReach_body hopen, if_pos heven] at hkept
  dsimp only at hkept
  rw [List.take_length_add_append, List.drop_length_add_append] at hkept
  rw [hkept]
  exact kept_moved (Nat.zero_le _) rest

/-- A comment that is not closed stays so with more text in it, and reaches that much further. -/
theorem openComment_moved (body taken : List Char) :
    Moved (Span.spread 1 (byteLength body + 2)) (openComment 0 taken)
      (openComment 0 (body ++ '*' :: '/' :: taken)) := by
  refine ⟨rfl, rfl, ?_⟩
  have hpos : 1 < 0 + byteLength ('/' :: '*' :: taken) := by
    rw [byteLength_open]
    omega
  rw [openComment, openComment, Span.spread, if_neg (Nat.not_succ_le_zero 0), if_pos hpos,
    byteLength_commented, Nat.add_assoc]

/-- A comment in which a star is left over goes on, as if its body were not there. -/
theorem kept_swallowed (hopen : ¬['*', '/'] <:+: body) (hodd : ¬Even (closingStars body))
    (rest : List Char) :
    List.Forall₂ (Moved (Span.spread 1 (byteLength body + 2))) (kept 0 ('/' :: '*' :: rest))
      (kept 0 ('/' :: '*' :: (body ++ '*' :: '/' :: rest))) := by
  have hkept := kept_comment 0 (body ++ '*' :: '/' :: rest)
  rw [commentReach_body hopen, if_neg hodd, Reach.after] at hkept
  dsimp only at hkept
  rw [Nat.add_assoc, List.take_length_add_append, List.drop_length_add_append, Nat.add_comm 2,
    List.take_succ_cons, List.take_succ_cons, List.drop_succ_cons, List.drop_succ_cons,
    byteLength_commented, ← Nat.add_assoc 0] at hkept
  rw [hkept, kept_comment]
  refine List.rel_append ?_ (kept_moved ?_ _)
  · cases (commentReach rest).closed with
    | true => exact .nil
    | false => exact .cons (openComment_moved _ _) .nil
  · rw [byteLength_open]
    omega

end Lexeme

/-- The block comment with this body. -/
def blockComment (body : String) : String :=
  "/*" ++ body ++ "*/"

theorem toList_blockComment_append (body rest : String) :
    (blockComment body ++ rest).toList =
      '/' :: '*' :: (body.toList ++ '*' :: '/' :: rest.toList) := by
  simp only [blockComment, String.toList_append, List.append_assoc]
  rfl

namespace Reading

variable {body : String}

theorem ofSource_skipped (hopen : ¬['*', '/'] <:+: body.toList)
    (heven : Even (closingStars body.toList)) (rest : String) :
    ofSource (blockComment body ++ rest) =
      (ofSource rest).mapSpans (Span.spread 0 (blockComment body).utf8ByteSize) := by
  apply ofSource_moved
  have hcomment : (blockComment body).toList = '/' :: '*' :: (body.toList ++ ['*', '/']) := by
    have hlist := toList_blockComment_append body ""
    rwa [String.append_empty] at hlist
  rw [toList_blockComment_append, ← byteLength_toList, hcomment]
  exact Lexeme.kept_skipped hopen heven _

theorem ofSource_swallowed (hopen : ¬['*', '/'] <:+: body.toList)
    (hodd : ¬Even (closingStars body.toList)) (rest : String) :
    ofSource (blockComment body ++ rest) =
      (ofSource ("/*" ++ rest)).mapSpans (Span.spread 1 (body.utf8ByteSize + 2)) := by
  apply ofSource_moved
  have hrest : ("/*" ++ rest).toList = '/' :: '*' :: rest.toList := by
    rw [String.toList_append]
    rfl
  rw [toList_blockComment_append, hrest, ← byteLength_toList]
  exact Lexeme.kept_swallowed hopen hodd _

theorem length_diagnostics_mapSpans (f : Span → Span) (reading : Reading) :
    (reading.mapSpans f).diagnostics.length = reading.diagnostics.length :=
  List.length_map _

end Reading

/-- A block comment ends at its first `*/` exactly if the number of stars right before that is
even.  Then it is skipped, and what follows is read as if it stood alone, with all places moved
by the length of the comment.  If the number is odd, the comment goes on behind the `*/`, and
what follows is read as the text of an open comment. -/
theorem read_after_comment (body : String) (hopen : ¬['*', '/'] <:+: body.toList) :
    (Even (closingStars body.toList) ↔ ∀ rest : String,
      Reading.ofSource (blockComment body ++ rest) =
        (Reading.ofSource rest).mapSpans (Span.spread 0 (blockComment body).utf8ByteSize)) ∧
    (¬Even (closingStars body.toList) → ∀ rest : String,
      Reading.ofSource (blockComment body ++ rest) =
        (Reading.ofSource ("/*" ++ rest)).mapSpans (Span.spread 1 (body.utf8ByteSize + 2))) := by
  refine ⟨⟨Reading.ofSource_skipped hopen, fun hskipped => ?_⟩, Reading.ofSource_swallowed hopen⟩
  by_contra hodd
  -- With nothing behind it, the comment would be both skipped and reported.
  have hboth := (hskipped "").symm.trans (Reading.ofSource_swallowed hopen hodd "")
  have hcount := congrArg (·.diagnostics.length) hboth
  simp only [Reading.length_diagnostics_mapSpans] at hcount
  have hreported : (Reading.ofSource "").diagnostics.length ≠
      (Reading.ofSource ("/*" ++ "")).diagnostics.length := by decide +kernel
  exact hreported hcount

/-- Two stars before the closing mark, and characters of two bytes. -/
theorem read_after_comment_stars :
    ¬['*', '/'] <:+: "é*é**".toList ∧ (Reading.ofSource "1 @").diagnostics.length = 1 ∧
    Reading.ofSource ("/*é*é***/" ++ "1 @") =
      (Reading.ofSource "1 @").mapSpans (Span.spread 0 11) := by
  have hopen : ¬['*', '/'] <:+: "é*é**".toList := by decide
  have heven : Even (closingStars "é*é**".toList) := by decide
  exact ⟨hopen, by decide +kernel, (read_after_comment "é*é**" hopen).1.1 heven "1 @"⟩

/-- A comment whose body is one star is not closed: it is reported, or it takes what follows
up to the end of another comment with it. -/
theorem read_not_after_star :
    ¬['*', '/'] <:+: "*".toList ∧
    (strays (blockComment "*")).map Stray.span = [⟨0, 5⟩] ∧
    tokens "1 /* */" ≠ [] ∧ Reading.ofSource (blockComment "*" ++ "1 /* */") = ⟨[], []⟩ := by
  decide +kernel

end TagLang
