import TapeTower.Proofs.CommandLine.Gathering
import TapeTower.Proofs.Machine.Bounds
import TapeTower.Proofs.Machine.Sink
import TapeTower.Proofs.Tape.Render

/-!
# The tape after a turn

A turn of the interactive loop prints the output of its program, reports how the run ended, and
shows the tape on a line of its own. Whatever the program has printed, the report sees to it that
this line begins there (`endsLine_report`), so that the last line of a turn is the text of the tape
that it leaves (`dump_of_runTurn`). Among turns on tapes of one size, it tells this tape whole
(`tape_eq_of_dump_eq`).
-/

namespace TapeTower.Repl

/-- The last line of what a turn prints. -/
def dump (stdout : String) : List Char := lastLine stdout.toList.dropLast

/-- Nothing has been printed, or a line has just ended. -/
def EndsLine (text : List Char) : Prop := text = [] ∨ ∃ line, text = line ++ ['\n']

/-- Behind the end of a line, the last line is a line of its own. -/
lemma lastLine_append {text line : List Char} (htext : EndsLine text) (hline : '\n' ∉ line) :
    lastLine (text ++ line) = line := by
  rcases htext with rfl | ⟨text, rfl⟩
  · exact lastLine_eq_self hline
  · rw [List.append_assoc, List.singleton_append, lastLine_line_append, lastLine_eq_self hline]

/-! ### Reports -/

lemma endsLine_report_ok (output : String) :
    EndsLine (output ++ report (.ok output)).toList := by
  rw [String.toList_append, report]
  split
  · next h =>
    have hnil : ("" : String).toList = [] := rfl
    rw [hnil, List.append_nil]
    rcases Bool.or_eq_true_iff.mp h with hempty | hend
    · left
      rw [String.isEmpty_iff.mp hempty, hnil]
    · right
      rw [String.endsWith_eq_endsWith_toSlice, String.Slice.endsWith_string_iff,
        String.copy_toSlice] at hend
      obtain ⟨line, hline⟩ := hend
      exact ⟨line, hline.symm⟩
  · exact Or.inr ⟨output.toList, rfl⟩

lemma endsLine_report_error (written : String) (fault : Fault) :
    EndsLine (written ++ report (.error fault)).toList := by
  refine Or.inr ⟨(written ++ "\nError: " ++ fault.message).toList, ?_⟩
  have hreport : report (.error fault) = "\nError: " ++ fault.message ++ "\n" := rfl
  rw [hreport]
  simp

variable {fuel : Nat} {dialect : Dialect} {source : List Char} {tape : Tape}

/-- However a run ends, the report ends the line that its output may have begun. -/
theorem endsLine_report {start : Nat} {input : Input} {halt : Halt}
    (h : dialect.compileAndRun fuel source start tape input .unlimited = some halt) :
    EndsLine (halt.machine.sink.written ++ report halt.result).toList := by
  cases hresult : halt.result with
  | error fault => exact endsLine_report_error _ fault
  | ok output =>
    unfold Dialect.compileAndRun at h
    cases hcode : dialect.compile source with
    | error fault =>
      rw [hcode] at h
      cases h
      cases hresult
    | ok code =>
      rw [hcode] at h
      have hwritten := written_of_execute h hresult
      rw [hwritten]
      exact endsLine_report_ok output

/-! ### The last line of a turn -/

/-- The last line of a turn is the text of the tape that it leaves, and this has as many cells as
before. -/
theorem dump_of_runTurn {stdin : List UInt8} {turn : Turn}
    (h : runTurn fuel dialect source tape stdin = some turn) :
    dump turn.stdout = turn.tape.render ∧ turn.tape.size = tape.size := by
  obtain ⟨halt, hrun, rfl⟩ := Option.map_eq_some_iff.mp h
  refine ⟨?_, size_compileAndRun hrun⟩
  have hline : ("\n" : String).toList = ['\n'] := rfl
  rw [dump, String.toList_append, hline, List.dropLast_concat, String.toList_append,
    String.toList_ofList]
  exact lastLine_append (endsLine_report hrun) halt.machine.tape.lineFeed_not_mem_render

/-- Tapes with the same number of cells and the same text are the same. So, of turns on tapes with
the same number of cells, those with the same last line leave the same tape, whatever their programs
and inputs are and whatever else they print. -/
theorem tape_eq_of_dump_eq :
    (∀ t u : Tape, t.size = u.size → t.render = u.render → t = u) ∧
    ∀ (fuel fuel' : Nat) (dialect dialect' : Dialect) (source source' : List Char)
      (tape tape' : Tape) (stdin stdin' : List UInt8) (turn turn' : Turn),
      runTurn fuel dialect source tape stdin = some turn →
      runTurn fuel' dialect' source' tape' stdin' = some turn' →
      tape.size = tape'.size → dump turn.stdout = dump turn'.stdout → turn.tape = turn'.tape := by
  refine ⟨fun t u hsize h => Tape.eq_of_render_eq hsize h, ?_⟩
  intro fuel fuel' dialect dialect' source source' tape tape' stdin stdin' turn turn' h h' hsize
    hdump
  obtain ⟨hshown, hcells⟩ := dump_of_runTurn h
  obtain ⟨hshown', hcells'⟩ := dump_of_runTurn h'
  refine Tape.eq_of_render_eq ?_ ?_
  · rw [hcells, hcells', hsize]
  · rw [← hshown, hdump, hshown']

/-- A tape that is filled cell by cell and one that is given have the same text, which leaves out
the zero at the end. A program that prints and one that fails leave the same tape. Tapes with
different numbers of cells may have the same text. -/
theorem tape_eq_of_dump_eq_zero_at_end :
    (∃ t u : Tape, t.size = u.size ∧ t.render = u.render ∧ t.render = "10 *0* 4294967295".toList ∧
      t.cells = #[10, 0, 4294967295, 0] ∧ t = u) ∧
    (∃ turn turn', runTurn 9 .base "+>.".toList (Tape.blank 3) [] = some turn ∧
      runTurn 9 .alpha "=1>,".toList (Tape.blank 3) [] = some turn' ∧
      dump turn.stdout = "1 *0*".toList ∧ dump turn.stdout = dump turn'.stdout ∧
      turn.tape = turn'.tape) ∧
    (Tape.blank 1).render = (Tape.blank 2).render := by
  obtain ⟨htape, hturn⟩ := tape_eq_of_dump_eq
  refine ⟨?_, ?_, rfl⟩
  · exact ⟨⟨#[10, 0, 4294967295, 0], 1, by decide⟩,
      (((Tape.blank 4).set 2 4294967295).set 0 10).moveTo 1, rfl, rfl, rfl, rfl, htape _ _ rfl rfl⟩
  · have hprint : runTurn 9 .base "+>.".toList (Tape.blank 3) [] = some _ := rfl
    have hread : runTurn 9 .alpha "=1>,".toList (Tape.blank 3) [] = some _ := rfl
    have hdump := (dump_of_runTurn hprint).1
    have hdump' := (dump_of_runTurn hread).1
    exact ⟨_, _, hprint, hread, hdump, hdump.trans hdump'.symm,
      hturn _ _ _ _ _ _ _ _ _ _ _ _ hprint hread rfl (hdump.trans hdump'.symm)⟩

end TapeTower.Repl
