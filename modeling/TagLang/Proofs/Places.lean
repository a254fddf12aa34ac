import Mathlib.Data.List.Basic
import TagLang.Proofs.Labels
import TagLang.Proofs.Verdicts

/-!
# Places of diagnostics

A printed diagnostic is followed by the line and the column where its primary label
starts.  Labels count bytes, and the places are looked up by characters.  This module says
when the two agree.

* `Text.lines` cuts a text into lines, and `Text.IsOn` says on which line and in which
  column an offset lies.  `Text.locate?_eq_some_iff` says that this is what a look-up finds.
* `Text.locate?_injective`: two offsets have different places, so a shown place is right
  only if the looked up offset is.
* `byteLength_eq_length_iff`: bytes and characters are counted alike in ASCII texts only.
* `run_places` puts them together for everything that a run prints.
-/

namespace TagLang

namespace Text

/-! ## Lines -/

/-- The lines of a text, each with its terminator.  A text without characters has one empty
line, and a final terminator starts no further line. -/
def lines : List Char → List (List Char)
  | [] => [[]]
  | c :: rest =>
    if endsLine c rest && !rest.isEmpty then [c] :: lines rest
    else (lines rest).modifyHead (c :: ·)

/-- The place of an offset, counted in characters, among lines.  The end of the last line
is a place too. -/
inductive IsOn : List (List Char) → Nat → Location → Prop where
  | here {line : List Char} {below : List (List Char)} {offset : Nat} :
      offset < line.length → IsOn (line :: below) offset ⟨1, offset + 1⟩
  | atEnd {line : List Char} : IsOn [line] line.length ⟨1, line.length + 1⟩
  | further {line : List Char} {below : List (List Char)} {offset : Nat} {location : Location} :
      IsOn below offset location →
      IsOn (line :: below) (line.length + offset) ⟨location.line + 1, location.column⟩

theorem lines_ne_nil (text : List Char) : lines text ≠ [] := by
  induction text with
  | nil => simp [lines]
  | cons c rest ih =>
    unfold lines
    split
    · simp
    · simpa using ih

/-- The lines of a text make up the text. -/
theorem flatten_lines (text : List Char) : (lines text).flatten = text := by
  induction text with
  | nil => rfl
  | cons c rest ih =>
    unfold lines
    split
    · rw [List.flatten_cons, ih]
      rfl
    · cases hlines : lines rest with
      | nil => exact absurd hlines (lines_ne_nil rest)
      | cons first others =>
        rw [hlines] at ih
        rw [List.modifyHead_cons, List.flatten_cons, List.cons_append, ← List.flatten_cons, ih]

/-- The first character of a text stands at the start of its first line. -/
theorem exists_lines_cons (c : Char) (rest : List Char) :
    ∃ first others, lines (c :: rest) = (c :: first) :: others := by
  unfold lines
  split
  · exact ⟨[], lines rest, rfl⟩
  · cases hlines : lines rest with
    | nil => exact absurd hlines (lines_ne_nil rest)
    | cons first others => exact ⟨first, others, rfl⟩

section

variable {lines : List (List Char)} {offset : Nat} {location : Location}

theorem IsOn.line_pos (h : IsOn lines offset location) : 0 < location.line := by
  cases h <;> exact Nat.succ_pos _

theorem IsOn.le_length (h : IsOn lines offset location) : offset ≤ lines.flatten.length := by
  induction h with
  | here hlt =>
    rw [List.flatten_cons, List.length_append]
    omega
  | atEnd => simp
  | further _ ih =>
    rw [List.flatten_cons, List.length_append]
    omega

/-- An offset has one place. -/
theorem IsOn.unique (h : IsOn lines offset location) :
    ∀ {other : Location}, IsOn lines offset other → other = location := by
  induction h with
  | here hlt =>
    intro other hother
    cases hother with
    | here _ => rfl
    | atEnd => rfl
    | further _ => omega
  | atEnd =>
    intro other hother
    generalize hoffset : List.length _ = offset at hother
    cases hother with
    | here _ => rfl
    | atEnd => rfl
    | further hbelow => cases hbelow
  | @further line below offset location hbelow ih =>
    intro other hother
    generalize hoffset : line.length + offset = total at hother
    cases hother with
    | here hlt => omega
    | atEnd => cases hbelow
    | @further _ _ offset' location' hbelow' =>
      obtain rfl : offset' = offset := by omega
      rw [ih hbelow']

/-- A place has one offset. -/
theorem IsOn.offset_unique (h : IsOn lines offset location) :
    ∀ {other : Nat}, IsOn lines other location → other = offset := by
  induction h with
  | here hlt =>
    intro other hother
    generalize hplace : (⟨1, _⟩ : Location) = place at hother
    cases hother with
    | here _ =>
      cases hplace
      rfl
    | atEnd =>
      cases hplace
      rfl
    | further hbelow =>
      have hline := hbelow.line_pos
      injection hplace
      omega
  | atEnd =>
    intro other hother
    generalize hplace : (⟨1, _⟩ : Location) = place at hother
    cases hother with
    | here _ =>
      injection hplace
      omega
    | atEnd => rfl
    | further hbelow => cases hbelow
  | @further line below offset location hbelow ih =>
    intro other hother
    have hline := hbelow.line_pos
    generalize hplace : (⟨_, _⟩ : Location) = place at hother
    cases hother with
    | here _ =>
      injection hplace
      omega
    | atEnd =>
      injection hplace
      omega
    | @further _ _ other place hother =>
      have hsame : place = location := by
        cases place
        cases location
        simpa using hplace.symm
      rw [hsame] at hother
      rw [ih hother]

/-- A character in front of the first line moves the places on it. -/
theorem IsOn.push {first : List Char} {others : List (List Char)}
    (h : IsOn (first :: others) offset location) (c : Char) :
    IsOn ((c :: first) :: others) (offset + 1)
      ⟨location.line, if location.line = 1 then location.column + 1 else location.column⟩ := by
  cases h with
  | here hlt => exact .here (Nat.succ_lt_succ hlt)
  | atEnd => exact .atEnd
  | @further _ _ offset location hbelow =>
    have hline := hbelow.line_pos
    have hnext : IsOn ((c :: first) :: others) (first.length + 1 + offset) _ := .further hbelow
    rw [if_neg (show ¬location.line + 1 = 1 by omega), Nat.add_right_comm]
    exact hnext

end

/-! ## Looking up an offset -/

/-- A look-up that starts in the middle of a line finds the place of an offset, further
down and, on the first line, further right. -/
theorem isOn_of_locateFrom (text : List Char) :
    ∀ (line column offset : Nat) {location : Location},
      locateFrom (line + 1) (column + 1) offset text = some location →
      ∃ place, IsOn (lines text) offset place ∧
        location = ⟨place.line + line,
          if place.line = 1 then place.column + column else place.column⟩ := by
  induction text with
  | nil =>
    intro line column offset location h
    cases offset with
    | zero =>
      refine ⟨⟨1, 1⟩, .atEnd, ?_⟩
      rw [locateFrom] at h
      cases h
      simp [Nat.add_comm]
    | succ offset => contradiction
  | cons c rest ih =>
    intro line column offset location h
    cases offset with
    | zero =>
      obtain ⟨first, others, hlines⟩ := exists_lines_cons c rest
      refine ⟨⟨1, 1⟩, ?_, ?_⟩
      · rw [hlines]
        exact .here (Nat.succ_pos _)
      · rw [locateFrom] at h
        cases h
        simp [Nat.add_comm]
    | succ offset =>
      rw [locateFrom] at h
      split at h
      · rename_i hends
        obtain ⟨place, hplace, rfl⟩ := ih (line + 1) 0 offset h
        have hline := hplace.line_pos
        refine ⟨⟨place.line + 1, place.column⟩, ?_, ?_⟩
        · rw [lines, if_pos hends, Nat.add_comm]
          exact .further hplace
        · rw [if_neg (show ¬place.line + 1 = 1 by omega)]
          simp only [Nat.add_zero, ite_self, Location.mk.injEq, and_true]
          omega
      · rename_i hends
        obtain ⟨place, hplace, rfl⟩ := ih line (column + 1) offset h
        cases hlines : lines rest with
        | nil => exact absurd hlines (lines_ne_nil rest)
        | cons first others =>
          rw [hlines] at hplace
          have hpushed := hplace.push c
          refine ⟨_, by rw [lines, if_neg hends, hlines]; exact hpushed, ?_⟩
          dsimp only
          split
          · rw [Nat.add_assoc, Nat.add_comm 1]
          · rfl

theorem locateFrom_isSome_iff (text : List Char) :
    ∀ (line column offset : Nat),
      (locateFrom line column offset text).isSome = true ↔ offset ≤ text.length := by
  induction text with
  | nil =>
    intro line column offset
    cases offset with
    | zero => simp [locateFrom]
    | succ offset => simp [locateFrom]
  | cons c rest ih =>
    intro line column offset
    cases offset with
    | zero => simp [locateFrom]
    | succ offset =>
      rw [locateFrom, List.length_cons, Nat.add_le_add_iff_right]
      split
      · exact ih _ _ _
      · exact ih _ _ _

/-- A look-up finds the place of an offset among the lines of the text. -/
theorem locate?_eq_some_iff {text : List Char} {offset : Nat} {location : Location} :
    locate? text offset = some location ↔ IsOn (lines text) offset location := by
  have hsound : ∀ {found : Location}, locate? text offset = some found →
      IsOn (lines text) offset found := by
    intro found hfound
    obtain ⟨place, hplace, rfl⟩ := isOn_of_locateFrom text 0 0 offset hfound
    simpa using hplace
  constructor
  · exact hsound
  · intro h
    have hle : offset ≤ text.length := by
      have hle := h.le_length
      rwa [flatten_lines] at hle
    obtain ⟨found, hfound⟩ :=
      Option.isSome_iff_exists.1 ((locateFrom_isSome_iff text 1 1 offset).2 hle)
    rw [← h.unique (hsound hfound)]
    exact hfound

/-- Two offsets have different places. -/
theorem locate?_injective {text : List Char} {offset offset' : Nat} {location : Location}
    (h : locate? text offset = some location) (h' : locate? text offset' = some location) :
    offset = offset' :=
  (locate?_eq_some_iff.1 h').offset_unique (locate?_eq_some_iff.1 h)

/-! ## Printed places -/

theorem Location.toList_text (location : Location) :
    location.text.toList =
      Nat.toDigits 10 location.line ++ ':' :: Nat.toDigits 10 location.column := by
  have hcolon : (toString ":").toList = [':'] := rfl
  simp [Location.text, hcolon]

/-- Places are told apart by how they are printed. -/
theorem Location.text_injective {a b : Location} (h : a.text = b.text) : a = b := by
  have hlist := congrArg String.toList h
  rw [Location.toList_text, Location.toList_text,
    List.append_cons_inj_of_notMem (not_mem_toDigits (by decide) _)
      (not_mem_toDigits (by decide) _)] at hlist
  obtain ⟨hline, -, hcolumn⟩ := hlist
  have hdigits : ∀ {m n : Nat}, Nat.toDigits 10 m = Nat.toDigits 10 n → m = n := by
    intro m n hmn
    rw [← Nat.ofDigitChars_ten_toDigits (n := m), hmn, Nat.ofDigitChars_ten_toDigits]
  cases a
  cases b
  rw [Location.mk.injEq]
  exact ⟨hdigits hline, hdigits hcolumn⟩

theorem Location.text_ne_unknown (location : Location) : location.text ≠ "?:?" := by
  intro h
  have hlist := congrArg String.toList h
  rw [Location.toList_text] at hlist
  have hmark : '?' ∈ Nat.toDigits 10 location.line ++ ':' :: Nat.toDigits 10 location.column := by
    rw [hlist]
    decide
  rcases List.mem_append.1 hmark with hmem | hmem
  · exact not_mem_toDigits (by decide) _ hmem
  · rcases List.mem_cons.1 hmem with hcolon | hmem
    · exact absurd hcolon (by decide)
    · exact not_mem_toDigits (by decide) _ hmem

end Text

/-! ## Bytes and characters -/

/-- The text has ASCII characters only. -/
def Ascii (text : List Char) : Prop :=
  ∀ c ∈ text, c.val ≤ 127

theorem length_le_byteLength (text : List Char) : text.length ≤ byteLength text := by
  induction text with
  | nil => exact Nat.le_refl _
  | cons c rest ih =>
    have hsize := c.utf8Size_pos
    rw [List.length_cons, byteLength_cons]
    omega

/-- The start of a text is known by its bytes. -/
theorem eq_of_byteLength_eq {text before before' : List Char} (h : before <+: text)
    (h' : before' <+: text) (hbytes : byteLength before = byteLength before') :
    before = before' := by
  have hpos : ∀ {first rest : List Char}, byteLength first = byteLength (first ++ rest) →
      first = first ++ rest := by
    intro first rest heq
    rw [byteLength_append] at heq
    have hle := length_le_byteLength rest
    have hnil : rest = [] := List.length_eq_zero_iff.1 (by omega)
    rw [hnil, List.append_nil]
  rcases List.prefix_or_prefix_of_prefix h h' with ⟨rest, rfl⟩ | ⟨rest, rfl⟩
  · exact hpos hbytes
  · exact (hpos hbytes.symm).symm

/-- A text takes one byte for each character exactly when it is ASCII. -/
theorem byteLength_eq_length_iff (text : List Char) :
    byteLength text = text.length ↔ Ascii text := by
  unfold Ascii
  induction text with
  | nil => simp [byteLength]
  | cons c rest ih =>
    have hsize := c.utf8Size_pos
    have hle := length_le_byteLength rest
    rw [List.forall_mem_cons, ← ih, ← Char.utf8Size_eq_one_iff, byteLength_cons, List.length_cons]
    omega

namespace CommandLine

/-! ## The place of a diagnostic -/

/-- The line that shows a place in a file. -/
def locationLine (file : String) (location : Text.Location) : String :=
  "at " ++ file ++ ":" ++ location.text

theorem placeText_eq_iff {text : List Char} {offset : Nat} {location : Text.Location} :
    placeText text offset = location.text ↔ Text.locate? text offset = some location := by
  unfold placeText
  cases Text.locate? text offset with
  | none =>
    constructor
    · intro h
      exact absurd h.symm location.text_ne_unknown
    · intro h
      contradiction
  | some found =>
    constructor
    · intro h
      rw [Text.Location.text_injective (a := found) (b := location) h]
    · intro h
      rw [Option.some.inj h]

theorem labelFits_iff {length : Nat} {label : Label} :
    labelFits length label = true ↔
      label.span.start ≤ length ∧ label.span.stop ≤ length + 1 := by
  simp only [labelFits, Bool.and_eq_true, Bool.or_eq_true, decide_eq_true_eq]
  omega

/-- A diagnostic is shown with the true place of its primary label exactly when only ASCII
characters stand before it, and one of its labels lies in the text if its bytes are counted
as characters. -/
theorem diagnosticLines_eq_iff {text before : List Char} {diagnostic : Diagnostic}
    {location : Text.Location} (hstart : byteLength before = diagnostic.primary.span.start)
    (hplace : Text.IsOn (Text.lines text) before.length location) (file : String) :
    diagnosticLines file text diagnostic = [headerLine diagnostic, locationLine file location] ↔
      Ascii before ∧ ∃ label ∈ diagnostic.labels,
        label.span.start ≤ text.length ∧ label.span.stop ≤ text.length + 1 := by
  have hfound : Text.locate? text diagnostic.primary.span.start = some location ↔
      Ascii before := by
    rw [← byteLength_eq_length_iff, hstart]
    constructor
    · intro h
      exact Text.locate?_injective h (Text.locate?_eq_some_iff.2 hplace)
    · intro h
      rw [h]
      exact Text.locate?_eq_some_iff.2 hplace
  have hfits : diagnostic.labels.any (labelFits text.length) = true ↔
      ∃ label ∈ diagnostic.labels,
        label.span.start ≤ text.length ∧ label.span.stop ≤ text.length + 1 := by
    simp only [List.any_eq_true, labelFits_iff]
  rw [← hfound, ← hfits, ← placeText_eq_iff]
  unfold diagnosticLines placeLine? locationLine
  split
  · rename_i hany
    simp [hany, String.append_right_inj]
  · rename_i hany
    simp [hany]

/-- The primary label of a diagnostic starts behind the text `before`, at a place of the
text. -/
structure StartsAt (text : List Char) (diagnostic : Diagnostic) (before : List Char)
    (location : Text.Location) : Prop where
  isPrefix : before <+: text
  bytes : byteLength before = diagnostic.primary.span.start
  place : Text.IsOn (Text.lines text) before.length location

/-- A diagnostic starts at one place only. -/
theorem StartsAt.unique {text before before' : List Char} {diagnostic : Diagnostic}
    {location location' : Text.Location} (h : StartsAt text diagnostic before location)
    (h' : StartsAt text diagnostic before' location') :
    before = before' ∧ location = location' := by
  have hbefore : before = before' :=
    eq_of_byteLength_eq h.isPrefix h'.isPrefix (h.bytes.trans h'.bytes.symm)
  subst hbefore
  exact ⟨rfl, h'.place.unique h.place⟩

/-- Every diagnostic of a check starts at a place of the text. -/
theorem exists_startsAt {limit : Nat} {text : String} {diagnostic : Diagnostic}
    (h : diagnostic ∈ (check limit text).log.diagnostics) :
    ∃ before location, StartsAt text.toList diagnostic before location := by
  have hprimary := anchored_of_mem_check limit text diagnostic h diagnostic.primary
    List.mem_cons_self
  obtain ⟨before, after, hsplit, hstart⟩ :=
    String.Pos.Raw.isValid_iff_exists_append.1 hprimary.1.start
  have hprefix : before.toList <+: text.toList := by
    rw [hsplit, String.toList_append]
    exact List.prefix_append _ _
  obtain ⟨location, hlocation⟩ := Option.isSome_iff_exists.1
    ((Text.locateFrom_isSome_iff text.toList 1 1 before.toList.length).2 hprefix.length_le)
  refine ⟨before.toList, location, hprefix, ?_, Text.locate?_eq_some_iff.1 hlocation⟩
  rw [byteLength_toList]
  exact (congrArg String.Pos.Raw.byteIdx hstart).symm

/-- In an ASCII text every diagnostic has a label that lies in the text. -/
theorem exists_label_of_ascii {limit : Nat} {text : String} {diagnostic : Diagnostic}
    (h : diagnostic ∈ (check limit text).log.diagnostics) (hascii : Ascii text.toList) :
    ∃ label ∈ diagnostic.labels, label.span.start ≤ text.toList.length ∧
      label.span.stop ≤ text.toList.length + 1 := by
  have hprimary := anchored_of_mem_check limit text diagnostic h diagnostic.primary
    List.mem_cons_self
  have hordered := hprimary.1.ordered
  have hinside := hprimary.1.inside
  rw [← byteLength_toList, (byteLength_eq_length_iff _).2 hascii] at hinside
  exact ⟨diagnostic.primary, List.mem_cons_self, by omega, by omega⟩

/-! ## Runs -/

theorem lines_checked (limit : Nat) (files texts : List String) :
    (checked limit files texts).flatMap CheckedFile.lines =
      (files.zip texts).flatMap fun (file, text) =>
        (check limit text).log.diagnostics.flatMap (diagnosticLines file text.toList) := by
  unfold checked
  rw [List.flatMap_map]
  rfl

/-- The places that a run shows.

A run over texts prints the lines of all diagnostics, in the order of the files and of
their reports, and at most a count after them.  Each diagnostic starts at some place of its
text.  The lines of the diagnostic are its header and that place exactly when only ASCII
characters stand before the place, and one of the labels lies in the text if its bytes are
counted as characters.  If the whole text is ASCII, this is always so. -/
theorem run_places {arguments files texts : List String} {limit : Nat} {printTypes : Bool}
    (h : Request.ofArguments arguments = .ok (.check files limit printTypes))
    {system : FileSystem} (htexts : List.Forall₂ (HoldsText system) files texts) :
    (∃ last, (run system arguments).stderr =
        (files.zip texts).flatMap (fun (file, text) =>
          (check limit text).log.diagnostics.flatMap (diagnosticLines file text.toList)) ++ last ∧
      ∀ line ∈ last, ∃ failed total, line = summaryLine failed total) ∧
    ∀ file text, (file, text) ∈ files.zip texts →
      ∀ diagnostic ∈ (check limit text).log.diagnostics,
        ∃ before location, StartsAt text.toList diagnostic before location ∧
          (diagnosticLines file text.toList diagnostic =
              [headerLine diagnostic, locationLine file location] ↔
            Ascii before ∧ ∃ label ∈ diagnostic.labels,
              label.span.start ≤ text.toList.length ∧
                label.span.stop ≤ text.toList.length + 1) ∧
          (Ascii text.toList → diagnosticLines file text.toList diagnostic =
            [headerLine diagnostic, locationLine file location]) := by
  constructor
  · have hrun : run system arguments = transcriptOf printTypes (checked limit files texts) := by
      unfold run checkFiles
      rw [h]
      dsimp only
      rw [readTexts_eq_ok_iff.2 htexts]
    rw [hrun, ← lines_checked]
    refine ⟨_, rfl, ?_⟩
    intro line hline
    split at hline
    · contradiction
    · exact ⟨_, _, List.mem_singleton.1 hline⟩
  · intro file text _ diagnostic hmem
    obtain ⟨before, location, hstarts⟩ := exists_startsAt hmem
    have hiff := diagnosticLines_eq_iff hstarts.bytes hstarts.place file
    refine ⟨before, location, hstarts, hiff, ?_⟩
    intro hascii
    have hbefore : Ascii before := fun c hc => hascii c (hstarts.isPrefix.subset hc)
    exact hiff.2 ⟨hbefore, exists_label_of_ascii hmem hascii⟩

/-- Texts with a letter of two bytes, after and before a name that is not declared. -/
def accentedSystem : FileSystem := fun file =>
  if file = "late" then .ok "//ok\n1; x;\n//é".toUTF8
  else if file = "early" then .ok "//é\nx;".toUTF8
  else .error .notFound

/-- The finding on the name in both texts. -/
def accentedFinding (start : Nat) : Diagnostic :=
  (Finding.undeclared ⟨"x", ⟨start, start + 1⟩⟩).diagnostic

/-- Where the letter comes after the name, the shown place is true: the name is the fourth
character of the second line. -/
theorem run_places_accented :
    Request.ofArguments ["late", "early"] = .ok (.check ["late", "early"] defaultLimit false) ∧
    List.Forall₂ (HoldsText accentedSystem) ["late", "early"]
      ["//ok\n1; x;\n//é", "//é\nx;"] ∧
    accentedFinding 8 ∈ (check defaultLimit "//ok\n1; x;\n//é").log.diagnostics ∧
    StartsAt "//ok\n1; x;\n//é".toList (accentedFinding 8) "//ok\n1; ".toList ⟨2, 4⟩ ∧
    diagnosticLines "late" "//ok\n1; x;\n//é".toList (accentedFinding 8) =
      [headerLine (accentedFinding 8), locationLine "late" ⟨2, 4⟩] := by
  have harguments : Request.ofArguments ["late", "early"] =
      .ok (.check ["late", "early"] defaultLimit false) := by decide +kernel
  have htexts : List.Forall₂ (HoldsText accentedSystem) ["late", "early"]
      ["//ok\n1; x;\n//é", "//é\nx;"] := .cons rfl (.cons rfl .nil)
  have hmem : accentedFinding 8 ∈
      (check defaultLimit "//ok\n1; x;\n//é").log.diagnostics := by decide +kernel
  have hplace : StartsAt "//ok\n1; x;\n//é".toList (accentedFinding 8) "//ok\n1; ".toList
      ⟨2, 4⟩ := ⟨by decide, by decide, Text.locate?_eq_some_iff.1 (by decide)⟩
  obtain ⟨before, location, hstarts, hiff, -⟩ :=
    (run_places harguments htexts).2 "late" "//ok\n1; x;\n//é" (by simp) _ hmem
  obtain ⟨rfl, rfl⟩ := hstarts.unique hplace
  refine ⟨harguments, htexts, hmem, hplace, hiff.2 ⟨?_, ?_⟩⟩
  · rw [← byteLength_eq_length_iff]
    decide
  · exact ⟨_, List.mem_cons_self, by decide +kernel⟩

/-- Where the letter comes before the name, the name stands at the start of the second line,
and the run shows the second column. -/
theorem run_misplaces_after_accent :
    accentedFinding 5 ∈ (check defaultLimit "//é\nx;").log.diagnostics ∧
    StartsAt "//é\nx;".toList (accentedFinding 5) "//é\n".toList ⟨2, 1⟩ ∧
    run accentedSystem ["early"] =
      ⟨1, "", [headerLine (accentedFinding 5), locationLine "early" ⟨2, 2⟩, summaryLine 1 1]⟩ := by
  refine ⟨by decide +kernel, ⟨by decide, by decide, ?_⟩, by decide +kernel⟩
  exact Text.locate?_eq_some_iff.1 (by decide)

end CommandLine

end TagLang
