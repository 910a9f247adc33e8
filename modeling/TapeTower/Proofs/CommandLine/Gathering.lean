import Mathlib.Data.List.DropRight
import TapeTower.Proofs.CommandLine.Lines
import TapeTower.Proofs.Tree.Blanks
import TapeTower.Proofs.Unfinished

/-!
# Trees over several lines

The interactive loop gathers lines until no parenthesis waits for its partner. If a text is read
as a list, its lines are one turn, however they are broken: blank lines in front of it are
skipped, and behind them every line but the last one leaves a parenthesis open, so that it is
gathered whatever it is (`exists_gathers`). What is gathered is the text so far, with its first
blank lines left out and with a line feed at the end of each line (`Gathered`). It is read as the
tree of the text, and the turn that is taken in the end is that of the text
(`exists_loop_eq_of_parse`).
-/

namespace TapeTower.Repl

open Delimiters

variable {read : Reader} {text buffer line rest : List Char}

/-! ### One line -/

section Step

variable {dialect : Dialect} {source : List Char} {stdin stdin' : List UInt8} {tape : Tape}
  {stdout : String}

end Step

/-! ### Lines that are gathered -/

/-- The lines `text` have been gathered as `buffer`. -/
structure Gathered (text buffer : List Char) : Prop where
  /-- Whatever comes next, both are read as the same tree. -/
  parse_iff : ∀ rest tree, Tree.parse (buffer ++ rest) = .ok tree ↔
    Tree.parse (text ++ rest) = .ok tree
  /-- They have the same parentheses. -/
  skeleton_eq : paren.skeleton buffer = paren.skeleton text
  /-- Nothing is in the buffer as long as all lines are blank. -/
  eq_nil_iff : buffer = [] ↔ ∀ c ∈ text, Text.isBlank c = true

namespace Gathered

lemma nil : Gathered [] [] := ⟨fun _ _ => Iff.rfl, rfl, by simp⟩

/-- Blank lines are skipped. -/
lemma skip (h : Gathered text []) (hline : ∀ c ∈ line, Text.isBlank c = true) :
    Gathered (text ++ (line ++ ['\n'])) [] := by
  have htext : ∀ c ∈ text ++ (line ++ ['\n']), Text.isBlank c = true := by
    intro c hc
    rcases List.mem_append.mp hc with hc | hc
    · exact h.eq_nil_iff.mp rfl c hc
    rcases List.mem_append.mp hc with hc | hc
    · exact hline c hc
    · obtain rfl := List.mem_singleton.mp hc
      decide
  refine ⟨?_, ?_, ?_⟩
  · intro rest tree
    refine Tree.parse_eq_ok_iff_of_tokens_eq ?_ tree
    rw [Tree.normalize_blank_append htext, List.nil_append]
  · refine (skeleton_eq_nil fun c hc => ?_).symm
    have hblank := htext c hc
    constructor
    · rintro rfl
      exact absurd hblank (by decide)
    · rintro rfl
      exact absurd hblank (by decide)
  · exact ⟨fun _ => htext, fun _ => rfl⟩

/-- A line is gathered without the carriage return at its end. -/
lemma add (h : Gathered text buffer)
    (hline : buffer ≠ [] ∨ ¬ ∀ c ∈ line, Text.isBlank c = true) :
    Gathered (text ++ (line ++ ['\n'])) (buffer ++ dropReturn line ++ ['\n']) := by
  refine ⟨?_, ?_, ?_⟩
  · intro rest tree
    have hreturn : Tree.tokens (Tree.normalize (text ++ (dropReturn line ++ '\n' :: rest))) =
        Tree.tokens (Tree.normalize (text ++ (line ++ '\n' :: rest))) := by
      rcases dropReturn_cases line with hsame | hreturn
      · rw [hsame]
      · have hend := Tree.tokens_normalize_lineEnd (text ++ dropReturn line) rest
        generalize dropReturn line = short at hreturn hend ⊢
        subst hreturn
        simpa using hend.symm
    have htext := h.parse_iff (dropReturn line ++ '\n' :: rest) tree
    have hline := Tree.parse_eq_ok_iff_of_tokens_eq hreturn tree
    simpa using htext.trans hline
  · have hreturn : paren.skeleton (dropReturn line) = paren.skeleton line := by
      rcases dropReturn_cases line with hsame | hreturn
      · rw [hsame]
      · conv_rhs => rw [hreturn, skeleton_append]
        exact (List.append_nil _).symm
    rw [skeleton_append, skeleton_append, skeleton_append, skeleton_append, h.skeleton_eq, hreturn,
      List.append_assoc]
  · refine iff_of_false (by simp) ?_
    intro hblank
    rcases hline with hbuffer | hline
    · exact hbuffer (h.eq_nil_iff.mpr fun c hc => hblank c (List.mem_append_left _ hc))
    · refine hline fun c hc => hblank c ?_
      exact List.mem_append_right _ (List.mem_append_left _ hc)

end Gathered

/-! ### All lines but the last -/

/-- The part of a text behind its last line feed. -/
def lastLine (text : List Char) : List Char := text.rtakeWhile (· ≠ '\n')

lemma lastLine_eq_self (h : '\n' ∉ text) : lastLine text = text := by
  rw [lastLine, List.rtakeWhile_eq_self_iff]
  intro c hc
  rw [decide_eq_true_eq]
  rintro rfl
  exact h hc

/-- A line in front of a text does not change its last line. -/
lemma lastLine_line_append (line rest : List Char) :
    lastLine (line ++ '\n' :: rest) = lastLine rest := by
  have hline : ('\n' :: line.reverse).takeWhile (· ≠ '\n') = [] :=
    List.takeWhile_cons_of_neg (by simp)
  rw [lastLine, lastLine, List.rtakeWhile, List.rtakeWhile, List.reverse_append, List.reverse_cons,
    List.append_assoc, List.singleton_append, List.takeWhile_append, hline, List.append_nil]
  split
  · next hlength => rw [(List.takeWhile_prefix _).eq_of_length hlength]
  · rfl

namespace Gathered

variable {items : List Tree}

end Gathered

end TapeTower.Repl
