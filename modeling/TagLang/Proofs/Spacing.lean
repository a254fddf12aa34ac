import TagLang.Proofs.Lookahead
import TagLang.Proofs.RelocatedReports

/-!
# Space between tokens

Blanks that are put before or after a token of a source change the places in its report and
nothing else.

* `Lexeme.kept` are the lexemes that are not skipped.  `Lexeme.kept_step` puts a lexeme in front
  of a text in which blanks were put, and `Lexeme.kept_spaced` goes through a whole text.
* `Relocation.gap` is how lexemes move.  `Span.spread` says the same of all spans in a report,
  one of which may be the end of the source.
* `tokens_spaced` is the result for tokens, and `check_spaced` the one for reports.
-/

namespace TagLang

/-! ## Gaps -/

/-- Everything from `offset` on moves by `amount`.  At the offset itself a start moves and a
stop does not. -/
def Relocation.gap (offset amount : Nat) : Relocation where
  start a := if a < offset then a else a + amount
  stop b := if b ≤ offset then b else b + amount
  start_mono := by
    intro a b h
    split <;> split <;> omega
  stop_mono := by
    intro a b h
    split <;> split <;> omega
  stop_zero := by simp

theorem Relocation.gap_before {offset amount : Nat} {span : Span} (hstart : span.start < offset)
    (hstop : span.stop ≤ offset) : (gap offset amount).span span = span := by
  simp [Relocation.span, gap, hstart, hstop]

theorem Relocation.gap_after {offset amount : Nat} {span : Span} (hstart : offset ≤ span.start)
    (hstop : span.start < span.stop) :
    (gap offset amount).span span = ⟨span.start + amount, span.stop + amount⟩ := by
  simp only [Relocation.span, gap]
  rw [if_neg (by omega), if_neg (by omega)]

/-! ## Lexemes -/

def Relocation.lexeme (r : Relocation) (lexeme : Lexeme) : Lexeme :=
  { lexeme with span := r.span lexeme.span }

theorem byteLength_pos (c : Char) (text : List Char) : 0 < byteLength (c :: text) := by
  rw [byteLength_cons]
  have := c.utf8Size_pos
  omega

namespace Lexeme

/-- The lexemes of a text that are not skipped. -/
def kept (start : Nat) (text : List Char) : List Lexeme :=
  (scan start text).filter (·.piece ≠ .skipped)

variable {start offset amount : Nat} {c : Char} {taken tail tail' : List Char}

theorem kept_cons (start : Nat) (hmore : (Cut.ofText c (taken ++ tail)).more = taken.length) :
    kept start (c :: (taken ++ tail)) =
      [⟨(Cut.ofText c (taken ++ tail)).piece, c :: taken,
          ⟨start, start + byteLength (c :: taken)⟩⟩].filter (·.piece ≠ .skipped) ++
        kept (start + byteLength (c :: taken)) tail := by
  rw [kept, scan, kept, ← List.filter_append]
  simp only [hmore, List.take_left, List.drop_left, List.singleton_append]

/-- A lexeme takes at least one byte, and none of the bytes before its text. -/
theorem start_of_mem_kept {text : List Char} {lexeme : Lexeme} (h : lexeme ∈ kept start text) :
    start ≤ lexeme.span.start ∧ lexeme.span.start < lexeme.span.stop := by
  have hmem := (List.mem_filter.1 h).1
  obtain ⟨before, after, -, hspan⟩ := scan_split start text lexeme hmem
  obtain ⟨c, rest, -, htext⟩ := scan_cut start text lexeme hmem
  have hpos := byteLength_pos c (rest.take (Cut.ofText c rest).more)
  rw [hspan, htext]
  dsimp only
  omega

/-- A text that stands later has the same lexemes, later. -/
theorem kept_add (h : offset ≤ start) (text : List Char) :
    kept (start + amount) text =
      (kept start text).map (Relocation.gap offset amount).lexeme := by
  have hscan : scan (start + amount) text =
      (scan start text).map (Relocation.gap offset amount).lexeme := by
    fun_induction scan start text with
    | case1 start => rw [scan, List.map_nil]
    | case2 start c rest cut text stop ih =>
      have hpos : 0 < byteLength text := byteLength_pos c _
      have hspan : (Relocation.gap offset amount).span ⟨start, stop⟩ =
          ⟨start + amount, stop + amount⟩ :=
        Relocation.gap_after h (show start < start + byteLength text by omega)
      have hstop : start + amount + byteLength text = stop + amount := by
        simp only [stop]
        omega
      rw [scan, List.map_cons, ← ih (by omega), Relocation.lexeme, hspan, ← hstop]
  rw [kept, kept, hscan, List.filter_map]
  rfl

theorem kept_skip_blanks (start : Nat) (text : List Char) :
    kept start text =
      kept (start + byteLength (text.takeWhile isBlank)) (text.dropWhile isBlank) := by
  cases text with
  | nil => rfl
  | cons c rest =>
    by_cases hc : isBlank c = true
    · have hcut : Cut.ofText c rest = ⟨.skipped, (rest.takeWhile isBlank).length⟩ := by
        rw [Cut.ofText, if_pos hc]
      have hrest := List.takeWhile_append_dropWhile (p := isBlank) (l := rest)
      have hkept := kept_cons start (c := c) (by rw [hrest, hcut])
      rw [hrest, hcut] at hkept
      rw [List.takeWhile_cons_of_pos hc, List.dropWhile_cons_of_pos hc, hkept]
      rfl
    · rw [List.takeWhile_cons_of_neg hc, List.dropWhile_cons_of_neg hc]
      rfl

/-- Blanks in front of a text are skipped. -/
theorem kept_blanks (start : Nat) {blanks : List Char} (h : ∀ c ∈ blanks, isBlank c = true)
    (text : List Char) : kept start (blanks ++ text) = kept (start + byteLength blanks) text := by
  rw [kept_skip_blanks, kept_skip_blanks (start + byteLength blanks),
    List.takeWhile_append_of_pos h, List.dropWhile_append_of_pos h, byteLength_append,
    Nat.add_assoc]

/-- A lexeme that stands before the offset and does not depend on what follows it stays. -/
theorem kept_step (hmore : (Cut.ofText c (taken ++ tail)).more = taken.length)
    (hsame : Cut.ofText c (taken ++ tail') = Cut.ofText c (taken ++ tail))
    (hoffset : start + byteLength (c :: taken) ≤ offset)
    (hrest : kept (start + byteLength (c :: taken)) tail' =
      (kept (start + byteLength (c :: taken)) tail).map (Relocation.gap offset amount).lexeme) :
    kept start (c :: (taken ++ tail')) =
      (kept start (c :: (taken ++ tail))).map (Relocation.gap offset amount).lexeme := by
  have hpos := byteLength_pos c taken
  have hspan : (Relocation.gap offset amount).span ⟨start, start + byteLength (c :: taken)⟩ =
      ⟨start, start + byteLength (c :: taken)⟩ :=
    Relocation.gap_before (show start < offset by omega) hoffset
  rw [kept_cons start hmore, kept_cons start (by rw [hsame, hmore]), hsame, hrest, List.map_append]
  congr 1
  cases hpiece : (Cut.ofText c (taken ++ tail)).piece <;> simp [Relocation.lexeme, hspan]

/-- A text whose first lexeme is kept does not start with a blank. -/
theorem head_of_mem_kept {text : List Char} {lexeme : Lexeme} (h : lexeme ∈ kept start text)
    (hstart : lexeme.span.start = start) : ∃ d, text.head? = some d ∧ isBlank d = false := by
  cases text with
  | nil =>
    rw [kept, scan] at h
    contradiction
  | cons d rest =>
    refine ⟨d, rfl, ?_⟩
    cases hd : isBlank d with
    | false => rfl
    | true =>
      exfalso
      rw [kept_skip_blanks, List.takeWhile_cons_of_pos hd] at h
      have hle := (start_of_mem_kept h).1
      have hpos := byteLength_pos d (rest.takeWhile isBlank)
      omega

/-- Some lexeme that is kept starts or stops at the offset. -/
def BoundaryAt (lexemes : List Lexeme) (offset : Nat) : Prop :=
  ∃ lexeme ∈ lexemes, offset = lexeme.span.start ∨ offset = lexeme.span.stop

theorem mem_kept_cons {lexeme : Lexeme}
    (hmore : (Cut.ofText c (taken ++ tail)).more = taken.length)
    (h : lexeme ∈ kept start (c :: (taken ++ tail))) :
    (lexeme.piece = (Cut.ofText c (taken ++ tail)).piece ∧ lexeme.piece ≠ .skipped ∧
        lexeme.span = ⟨start, start + byteLength (c :: taken)⟩) ∨
      lexeme ∈ kept (start + byteLength (c :: taken)) tail := by
  rw [kept_cons start hmore] at h
  rcases List.mem_append.1 h with hfirst | hrest
  · obtain ⟨hmem, hkept⟩ := List.mem_filter.1 hfirst
    obtain rfl := List.mem_singleton.1 hmem
    exact .inl ⟨rfl, of_decide_eq_true hkept, rfl⟩
  · exact .inr hrest

/-- A boundary that is not one of the first lexeme is one of those after it. -/
theorem BoundaryAt.later (hmore : (Cut.ofText c (taken ++ tail)).more = taken.length)
    (h : BoundaryAt (kept start (c :: (taken ++ tail))) offset) (hstart : start < offset)
    (hstop : offset ≠ start + byteLength (c :: taken)) :
    BoundaryAt (kept (start + byteLength (c :: taken)) tail) offset := by
  obtain ⟨lexeme, hmem, hplace⟩ := h
  rcases mem_kept_cons hmore hmem with ⟨-, -, hspan⟩ | hlater
  · exfalso
    rw [hspan] at hplace
    dsimp only at hplace
    omega
  · exact ⟨lexeme, hlater, hplace⟩

/-- A boundary after the start of the first lexeme is not inside of it. -/
theorem exists_between {rest second : List Char} (hsplit : rest ++ second = taken ++ tail)
    (hmore : (Cut.ofText c (taken ++ tail)).more = taken.length)
    (hboundary : BoundaryAt (kept start (c :: (taken ++ tail)))
      (start + byteLength (c :: rest))) :
    ∃ between, rest = taken ++ between ∧ tail = between ++ second := by
  rcases List.append_eq_append_iff.1 hsplit with ⟨extra, htaken, hsecond⟩ | hbetween
  · cases extra with
    | nil => exact ⟨[], by rw [htaken, List.append_nil, List.append_nil], hsecond.symm⟩
    | cons d extra =>
      exfalso
      have hlength : byteLength (c :: taken) =
          byteLength (c :: rest) + byteLength (d :: extra) := by
        rw [htaken, ← List.cons_append, byteLength_append]
      have hfirst := byteLength_pos c rest
      have hextra := byteLength_pos d extra
      obtain ⟨lexeme, hmem, hplace⟩ := hboundary.later hmore (by omega) (by omega)
      have hstart := start_of_mem_kept hmem
      omega
  · exact hbetween

/-- Blanks right after the first lexeme.  After a token they end it, and after a comment
nothing changes; a run of blanks takes them in. -/
theorem kept_spaced_end {blanks second : List Char} (hne : blanks ≠ [])
    (hblanks : ∀ c ∈ blanks, isBlank c = true)
    (hmore : (Cut.ofText c (taken ++ second)).more = taken.length)
    (hpiece : (Cut.ofText c (taken ++ second)).piece ≠ .stray)
    (hboundary : BoundaryAt (kept start (c :: (taken ++ second)))
      (start + byteLength (c :: taken))) :
    kept start (c :: (taken ++ (blanks ++ second))) =
      (kept start (c :: (taken ++ second))).map
        (Relocation.gap (start + byteLength (c :: taken)) (byteLength blanks)).lexeme := by
  have hrest : kept (start + byteLength (c :: taken)) (blanks ++ second) =
      (kept (start + byteLength (c :: taken)) second).map
        (Relocation.gap (start + byteLength (c :: taken)) (byteLength blanks)).lexeme := by
    rw [kept_blanks _ hblanks]
    exact kept_add (Nat.le_refl _) second
  by_cases hrun : isBlank c = true
  · rw [Cut.ofText, if_pos hrun] at hmore
    have htaken : ∀ d ∈ c :: taken, isBlank d = true :=
      List.forall_mem_cons.2 ⟨hrun, (takeWhile_append_eq_iff.1 (takeWhile_append_eq hmore)).1⟩
    have hskip (tail : List Char) : kept start (c :: (taken ++ tail)) =
        kept (start + byteLength (c :: taken)) tail := kept_blanks start htaken tail
    rw [hskip, hskip, hrest]
  · refine kept_step hmore (Cut.ofText_congr hmore hpiece ?_) (Nat.le_refl _) hrest
    intro d hd
    have hblank : isBlank d = true := by
      cases blanks with
      | nil => contradiction
      | cons e blanks =>
        obtain rfl := Option.some.inj hd
        exact hblanks e List.mem_cons_self
    refine Cut.continues_blank hmore hpiece (Bool.eq_false_iff.2 hrun) ?_ hblank
    obtain ⟨lexeme, hmem, hplace⟩ := hboundary
    rcases mem_kept_cons hmore hmem with ⟨hfirst, hkept, -⟩ | hlater
    · exact .inl (hfirst ▸ hkept)
    -- The first lexeme is a comment here, and the boundary is the start of the next one.
    · have hstart := start_of_mem_kept hlater
      exact .inr (head_of_mem_kept hlater (by omega))

/-- Blanks at a boundary move what comes after them, and change nothing else. -/
theorem kept_spaced {blanks second : List Char} (hne : blanks ≠ [])
    (hblanks : ∀ c ∈ blanks, isBlank c = true) (start : Nat) (first : List Char)
    (hclean : ∀ lexeme ∈ kept start (first ++ second), lexeme.piece ≠ .stray)
    (hboundary : BoundaryAt (kept start (first ++ second)) (start + byteLength first)) :
    kept start (first ++ (blanks ++ second)) =
      (kept start (first ++ second)).map
        (Relocation.gap (start + byteLength first) (byteLength blanks)).lexeme := by
  match first with
  | [] =>
    rw [List.nil_append, List.nil_append, kept_blanks start hblanks]
    exact kept_add (Nat.le_refl _) second
  | c :: rest =>
    -- The first lexeme `c :: taken` ends at the boundary or before it, and `between` is what
    -- lies between its end and the boundary.
    obtain ⟨taken, tail, hsplit, hmore⟩ := Cut.exists_taken c (rest ++ second)
    rw [List.cons_append, hsplit] at hclean hboundary
    obtain ⟨between, rfl, rfl⟩ := exists_between hsplit hmore hboundary
    rw [kept_cons start hmore] at hclean
    have hpiece : (Cut.ofText c (taken ++ (between ++ second))).piece ≠ .stray := by
      intro hstray
      rw [hstray] at hclean
      exact hclean _ (List.mem_append_left _ List.mem_cons_self) rfl
    rw [List.cons_append, List.cons_append, List.append_assoc, List.append_assoc]
    cases between with
    | nil =>
      rw [List.append_nil] at hboundary ⊢
      exact kept_spaced_end hne hblanks hmore hpiece hboundary
    | cons d between =>
      have hoffset : start + byteLength (c :: (taken ++ d :: between)) =
          start + byteLength (c :: taken) + byteLength (d :: between) := by
        rw [← List.cons_append, byteLength_append, Nat.add_assoc]
      have hpos := byteLength_pos d between
      have hstop := Cut.not_continues hmore hpiece
      refine kept_step hmore (Cut.ofText_congr hmore hpiece hstop) (by omega) ?_
      rw [hoffset] at hboundary ⊢
      refine kept_spaced hne hblanks _ (d :: between) ?_ ?_
      · exact fun lexeme hmem => hclean lexeme (List.mem_append_right _ hmem)
      · exact hboundary.later hmore (by omega) (by omega)
termination_by first.length

end Lexeme

/-! ## Sources -/

theorem filterMap_lexemes {β : Type} {f : Lexeme → Option β}
    (h : ∀ lexeme : Lexeme, lexeme.piece = .skipped → f lexeme = none) (source : String) :
    (lexemes source).filterMap f = (Lexeme.kept 0 source.toList).filterMap f := by
  have hf : (fun lexeme : Lexeme => if decide (lexeme.piece ≠ .skipped) = true then f lexeme
      else none) = f := by
    funext lexeme
    by_cases hpiece : lexeme.piece = .skipped
    · simp [hpiece, h lexeme hpiece]
    · simp [hpiece]
  rw [Lexeme.kept, List.filterMap_filter, hf]
  rfl

theorem tokens_eq_kept (source : String) :
    tokens source = (Lexeme.kept 0 source.toList).filterMap Lexeme.token? :=
  filterMap_lexemes (fun lexeme h => by rw [Lexeme.token?, h]) source

theorem strays_eq_kept (source : String) :
    strays source = (Lexeme.kept 0 source.toList).filterMap Lexeme.stray? :=
  filterMap_lexemes (fun lexeme h => by rw [Lexeme.stray?, h]) source

theorem strays_eq_nil_iff {source : String} :
    strays source = [] ↔ ∀ lexeme ∈ Lexeme.kept 0 source.toList, lexeme.piece ≠ .stray := by
  rw [strays_eq_kept, List.filterMap_eq_nil_iff]
  refine forall_congr' fun lexeme => imp_congr_right fun hmem => ?_
  obtain ⟨c, rest, -, htext⟩ := Lexeme.scan_cut 0 _ lexeme (List.mem_filter.1 hmem).1
  cases hpiece : lexeme.piece <;> simp [Lexeme.stray?, hpiece, htext]

variable {first blanks second : String}

/-- Blanks before or after a token move the tokens that come after them. -/
theorem tokens_spaced (hstrays : strays (first ++ second) = []) {t : Located}
    (ht : t ∈ tokens (first ++ second))
    (hplace : first.utf8ByteSize = t.span.start ∨ first.utf8ByteSize = t.span.stop)
    (hne : blanks ≠ "") (hblanks : ∀ c ∈ blanks.toList, isBlank c = true) :
    strays (first ++ blanks ++ second) = [] ∧
      tokens (first ++ blanks ++ second) = (tokens (first ++ second)).map
        (Relocation.gap first.utf8ByteSize blanks.utf8ByteSize).located := by
  have hclean := strays_eq_nil_iff.1 hstrays
  have hboundary : Lexeme.BoundaryAt (Lexeme.kept 0 (first ++ second).toList)
      (0 + byteLength first.toList) := by
    rw [tokens_eq_kept] at ht
    obtain ⟨lexeme, hmem, htoken⟩ := List.mem_filterMap.1 ht
    rw [Nat.zero_add, byteLength_toList]
    exact ⟨lexeme, hmem, by rwa [(Lexeme.token?_eq_some htoken).2]⟩
  have hkept : Lexeme.kept 0 (first ++ blanks ++ second).toList =
      (Lexeme.kept 0 (first ++ second).toList).map
        (Relocation.gap first.utf8ByteSize blanks.utf8ByteSize).lexeme := by
    have hne' : blanks.toList ≠ [] := by simpa using hne
    rw [String.toList_append] at hclean hboundary
    have := Lexeme.kept_spaced hne' hblanks 0 first.toList hclean hboundary
    rw [Nat.zero_add, byteLength_toList, byteLength_toList] at this
    rw [String.toList_append, String.toList_append, String.toList_append, List.append_assoc, this]
  constructor
  · rw [strays_eq_nil_iff, hkept, List.forall_mem_map]
    exact hclean
  · rw [tokens_eq_kept, tokens_eq_kept, hkept, List.filterMap_map, List.map_filterMap]
    refine congrArg (List.filterMap · _) (funext fun lexeme => ?_)
    simp only [Function.comp_apply, Lexeme.token?, Relocation.lexeme]
    cases lexeme.piece <;> rfl

/-! ## Reports -/

/-- Where a span is after `amount` bytes were put at the offset: behind them, around them, or
before them. -/
def Span.spread (offset amount : Nat) (span : Span) : Span :=
  if offset ≤ span.start then ⟨span.start + amount, span.stop + amount⟩
  else if offset < span.stop then ⟨span.start, span.stop + amount⟩
  else span

theorem Span.spread_eq_gap {offset amount : Nat} {span : Span} (h : span.start < span.stop) :
    span.spread offset amount = (Relocation.gap offset amount).span span := by
  unfold Span.spread Relocation.span Relocation.gap
  dsimp only
  by_cases hstart : offset ≤ span.start
  · rw [if_pos hstart, if_neg (by omega), if_neg (by omega)]
  by_cases hstop : offset < span.stop
  · rw [if_neg hstart, if_pos hstop, if_pos (by omega), if_neg (by omega)]
  · rw [if_neg hstart, if_neg hstop, if_pos (by omega), if_pos (by omega)]

/-- What a diagnostic says, without the places it points to: its code and how serious that is,
its message, the messages of its labels, and its notes. -/
def Diagnostic.wording (diagnostic : Diagnostic) :
    Code × Severity × String × List String × List String :=
  (diagnostic.code, diagnostic.severity, diagnostic.message,
    diagnostic.labels.map (·.message), diagnostic.notes)

theorem Diagnostic.wording_mapSpans (f : Span → Span) (diagnostic : Diagnostic) :
    (diagnostic.mapSpans f).wording = diagnostic.wording := by
  simp [wording, mapSpans, labels, Label.mapSpan, severity, Function.comp_def]

theorem Report.hasErrors_mapSpans (f : Span → Span) (report : Report) :
    (report.mapSpans f).hasErrors = report.hasErrors := by
  simp only [Report.hasErrors, Report.mapSpans, Log.hasErrors, List.any_map]
  rfl

/-- Blanks before or after a token do not change what is reported on a source without stray
text: the report is the same but for its places, and those move with the text.  The offset of
a token always divides the source in two. -/
theorem check_spaced {source : String} (hstrays : strays source = []) {t : Located}
    (ht : t ∈ tokens source) {offset : Nat}
    (hoffset : offset = t.span.start ∨ offset = t.span.stop) :
    ∃ first second, source = first ++ second ∧ first.utf8ByteSize = offset ∧
      ∀ blanks : String, blanks ≠ "" → (∀ c ∈ blanks.toList, isBlank c = true) → ∀ limit : Nat,
        let plain := check limit source
        let spaced := check limit (first ++ blanks ++ second)
        spaced.hasErrors = plain.hasErrors ∧
        spaced.log.diagnostics.map Diagnostic.wording =
          plain.log.diagnostics.map Diagnostic.wording ∧
        spaced.statements.map (·.tag) = plain.statements.map (·.tag) ∧
        spaced = plain.mapSpans (Span.spread offset blanks.utf8ByteSize) := by
  have hvalid : String.Pos.Raw.IsValid source ⟨offset⟩ := by
    obtain ⟨hin, -⟩ := inText_of_mem_tokens ht
    rcases hoffset with rfl | rfl
    · exact hin.start
    · exact hin.stop
  obtain ⟨first, second, rfl, hfirst⟩ := String.Pos.Raw.isValid_iff_exists_append.1 hvalid
  obtain rfl : offset = first.utf8ByteSize := congrArg String.Pos.Raw.byteIdx hfirst
  refine ⟨first, second, rfl, rfl, fun blanks hne hblanks limit => ?_⟩
  obtain ⟨hstrays', htokens⟩ := tokens_spaced hstrays ht hoffset hne hblanks
  have hend : (Span.point (first ++ second).utf8ByteSize).spread first.utf8ByteSize
      blanks.utf8ByteSize = .point (first ++ blanks ++ second).utf8ByteSize := by
    simp only [String.utf8ByteSize_append]
    unfold Span.spread Span.point
    rw [if_pos (Nat.le_add_right _ _), Nat.add_right_comm]
  have hspaced := Relocation.check_located limit hstrays hstrays' htokens
    (fun span hlt => Span.spread_eq_gap hlt) hend
  dsimp only
  rw [hspaced]
  refine ⟨Report.hasErrors_mapSpans _ _, ?_, ?_, rfl⟩
  · rw [Report.mapSpans, List.map_map]
    exact List.map_congr_left fun diagnostic _ => diagnostic.wording_mapSpans _
  · rw [Report.mapSpans, List.map_map]
    rfl

/-- Blanks between a comment and a token. -/
theorem check_spaced_comment :
    (check 8 "/**/!1;").log.diagnostics.map (fun diagnostic =>
        (diagnostic.code, diagnostic.labels.map (·.span))) =
      [(.operandMismatch, [⟨5, 6⟩, ⟨4, 6⟩])] ∧
    ∃ first second, "/**/!1;" = first ++ second ∧ first.utf8ByteSize = 4 ∧
      check 8 (first ++ "\n\t" ++ second) =
        (check 8 "/**/!1;").mapSpans (Span.spread 4 2) := by
  have hstrays : strays "/**/!1;" = [] := by decide +kernel
  have ht : ⟨.not, ⟨4, 5⟩⟩ ∈ tokens "/**/!1;" := by decide +kernel
  have hblanks : "\n\t".toList.all isBlank = true := by decide
  obtain ⟨first, second, hsplit, hsize, hspaced⟩ := check_spaced hstrays ht (.inl rfl)
  refine ⟨by decide +kernel, first, second, hsplit, hsize, ?_⟩
  exact (hspaced "\n\t" (by decide) (List.all_eq_true.1 hblanks) 8).2.2.2

end TagLang
