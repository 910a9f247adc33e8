import TapeTower.CommandLine
import TapeTower.Proofs.Machine.Outcome
import TapeTower.Proofs.Machine.Output

/-!
# Running a minimized text

Minimizing is not idempotent: the first pass may bring moves together that were kept apart by
changes of a cell, and these are cancelled when the minimized text is minimized once more, as
`execute` does. So a minimized text that is run as a program has been minimized twice, and the
second time is noticed only where the end of the tape stops a move in a mixed run of the text
that was minimized once (`endsAs_minimize`).

The command line prints a minimized program with a line break behind it, which is a comment.
A comment at the end of a program has no effect, and exchanging the last straight part for one
with such a comment is never noticed (`endsAs_append_comment`).
-/

namespace TapeTower

/-! ### A comment at the end -/

lemma isPlain_of_comment {c : Char} (hc : Instruction.ofChar? c = none) : IsPlain c := by
  constructor
  · rintro rfl
    cases hc
  · rintro rfl
    cases hc

lemma not_isCancelled_of_comment {c : Char} (hc : Instruction.ofChar? c = none) :
    ¬ IsCancelled c := by
  rintro (rfl | rfl | rfl | rfl) <;> cases hc

/-- One more character behind. -/
def Straight.snoc (s : Straight) (c : Char) (hc : IsPlain c) : Straight :=
  ⟨s.1 ++ [c], by
    intro x hx
    rcases List.mem_append.mp hx with hx | hx
    · exact s.2 x hx
    · rwa [List.mem_singleton.mp hx]⟩

namespace Program

/-- A program with one more character behind. -/
def snoc (c : Char) (hc : IsPlain c) : Program → Program
  | straight s => straight (s.snoc c hc)
  | loop before body rest => loop before body (rest.snoc c hc)

lemma text_snoc (c : Char) (hc : IsPlain c) (p : Program) :
    (p.snoc c hc).text = p.text ++ [c] := by
  induction p with
  | straight s => rfl
  | loop before body rest _ ih => simp [snoc, text, ih]

/-- A comment behind a program leaves the effect of its straight parts as it is. -/
lemma relates_snoc {c : Char} (hc : Instruction.ofChar? c = none) (p : Program) :
    Exchange.sameEffect.Relates p (p.snoc c (isPlain_of_comment hc)) := by
  induction p with
  | straight s =>
    refine .straight fun m => ?_
    rw [Straight.snoc, Machine.actAll_append]
    rcases m.actAll s.1 with ⟨_ | _, m'⟩
    · rfl
    · simp [Machine.actAll, Machine.act, hc]
  | loop before body rest _ ih => exact .loop (fun _ => rfl) (Exchange.sameEffect_refl body) ih

end Program

variable {code : List Char} {tape : Tape} {input : Input} {sink : Sink} {halt : Halt}

/-- A comment at the end of a program is not noticed. -/
theorem endsAs_append_comment {c : Char} (hc : Instruction.ofChar? c = none) :
    EndsAs (code ++ [c]) tape input sink halt ↔ EndsAs code tape input sink halt := by
  have hplain := isPlain_of_comment hc
  refine endsAs_iff_of_skeleton_eq ?_ fun hbalanced hbalanced' halt => ?_
  · have hcomment : Delimiters.loop.skeleton [c] = [] :=
      Delimiters.skeleton_eq_nil fun x hx => List.mem_singleton.mp hx ▸ hplain
    rw [Delimiters.skeleton_append, hcomment, List.append_nil]
  · obtain ⟨p, rfl⟩ := Program.exists_text_eq hbalanced'
    refine endsAs_iff_of_relates p.text_minimize ?_ (Program.relates_snoc hc p.minimize)
      fun _ _ => not_false
    rw [Program.text_snoc, Program.text_minimize, minimize_append_cons
      (not_isCancelled_of_comment hc)]
    rfl

/-! ### Minimizing twice -/

/-- A minimized program that is run as a program ends like the program, and so does what
the command line prints for it, if the end of the tape stops no move in a mixed run of the
minimized program. -/
theorem endsAs_minimize
    (hclear : ∀ s, Visits code tape input sink s → ¬ s.Stopped) :
    (∀ halt, EndsAs (minimize code) tape input sink halt ↔ EndsAs code tape input sink halt) ∧
      ∀ (dialect : Dialect) (source : List Char), dialect.compile source = .ok code →
        ∀ halt, EndsAs (CommandLine.compile dialect source true).stdout.toList tape input sink
          halt ↔ EndsAs code tape input sink halt := by
  have hminimize : ∀ halt,
      EndsAs (minimize code) tape input sink halt ↔ EndsAs code tape input sink halt := by
    intro halt
    refine endsAs_iff_of_skeleton_eq (skeleton_minimize code) fun hbalanced _ halt => ?_
    obtain ⟨p, hp⟩ := Program.exists_text_eq hbalanced
    refine endsAs_iff_of_relates hp ?_ p.relates_minimize hclear
    rw [p.text_minimize, hp]
  refine ⟨hminimize, fun dialect source hcompile halt => ?_⟩
  have hprinted : (CommandLine.compile dialect source true).stdout.toList =
      minimize code ++ ['\n'] := by
    simp [CommandLine.compile, hcompile]
  rw [hprinted, endsAs_append_comment (by decide), hminimize]

/-- Minimizing `>+><-<` leaves the moves `>` and `<` with `+-` between them, and minimizing once
more takes away all four. On two cells this is not noticed. -/
theorem endsAs_minimize_there_and_back :
    (∀ s, Visits ">+><-<".toList (Tape.blank 2) [] Sink.unlimited s → ¬ s.Stopped) ∧
      (∀ halt, EndsAs (minimize ">+><-<".toList) (Tape.blank 2) [] Sink.unlimited halt ↔
        EndsAs ">+><-<".toList (Tape.blank 2) [] Sink.unlimited halt) ∧
      ∀ halt, EndsAs (CommandLine.compile .base ">+><-<".toList true).stdout.toList
        (Tape.blank 2) [] Sink.unlimited halt ↔
          EndsAs ">+><-<".toList (Tape.blank 2) [] Sink.unlimited halt := by
  have hclear : ∀ s, Visits ">+><-<".toList (Tape.blank 2) [] Sink.unlimited s →
      ¬ s.Stopped := by
    have hrun : Configuration.Avoids Configuration.Stopped (Configuration.start
        (minimize ">+><-<".toList) ⟨Tape.blank 2, [], Sink.unlimited, ""⟩) := by
      refine .of_step ?_ rfl (.of_step ?_ rfl (.of_step ?_ rfl (.of_step ?_ rfl
        (.of_haltsWith ?_ rfl)))) <;> rintro ⟨c, hc, hclamps, -⟩ <;> cases hc <;>
          exact absurd hclamps (by decide)
    exact fun s hs => hrun s hs.2
  have hends := endsAs_minimize hclear
  exact ⟨hclear, hends.1, hends.2 .base ">+><-<".toList rfl⟩

/-- On the first of two cells `<+><->` ends on the second cell and the minimized text, which is
minimized to nothing, on the first. -/
theorem not_endsAs_minimize :
    Sink.unlimited.NeverFails ∧
      ¬ ∀ halt, EndsAs (minimize "<+><->".toList) (Tape.blank 2) [] Sink.unlimited halt ↔
        EndsAs "<+><->".toList (Tape.blank 2) [] Sink.unlimited halt := by
  refine ⟨⟨rfl, rfl⟩, fun h => ?_⟩
  obtain ⟨last, hends, hcursor⟩ : ∃ last,
      EndsAs "<+><->".toList (Tape.blank 2) [] Sink.unlimited last ∧
        last.machine.tape.cursor = 1 := ⟨_, ⟨5, rfl⟩, rfl⟩
  have hnothing := ((h last).mpr hends).machine_eq (by decide)
  rw [hnothing] at hcursor
  exact absurd hcursor (by decide)

end TapeTower
