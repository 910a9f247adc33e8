import TapeTower.Proofs.Beta.Compilation
import TapeTower.Proofs.Cancellation
import TapeTower.Proofs.Pairing
import TapeTower.Dialect

/-!
# Compiled trees are sound programs

Whatever tree a source text writes, if it compiles then it compiles to instructions only, and
every loop bracket among them has its partner. Brackets come from loops, from cells that are set
and from the templates of commands, and each of these writes them in pairs; the text in between
is read back as it was emitted.

Minimizing keeps the brackets of a program as they are (`skeleton_minimize`), so that such a
program is never refused. Wherever it is started it can only be stopped by its input or output
(`ofRun_of_execute`).
-/

namespace TapeTower

namespace Beta

open Alpha

/-- A tree that compiles is lowered to a program whose brackets are partnered. -/
lemma exists_lower_of_compile {tree : Tree} {text : List Char} (h : compile tree = .ok text) :
    ∃ code, lower text = .ok code ∧ Delimiters.loop.Balanced code := by
  obtain ⟨tokens, htokens, rfl⟩ := map_eq_ok_iff.mp h
  have hgrouped := grouped_of_tokensOfCall tree htokens
  exact ⟨_, lower_flatMap_render hgrouped.isKnown, hgrouped.balanced_code⟩

end Beta

/-- A program whose loop brackets are partnered is stopped by nothing but its input or output,
wherever it is started. -/
lemma ofRun_of_execute {fuel : Nat} {code : List Char} {start : Nat} {tape : Tape} {input : Input}
    {sink : Sink} {halt : Halt} {fault : Fault} (hcode : Delimiters.loop.Balanced code)
    (h : execute fuel code start tape input sink = some halt)
    (hfault : halt.result = .error fault) : fault.OfRun := by
  by_contra hkind
  obtain ⟨side, i, position, hfirst, -⟩ := exists_firstUnmatched_of_execute h hfault hkind
  have hminimized : Delimiters.loop.Balanced (minimize code) :=
    (Delimiters.balanced_iff_of_skeleton_eq (by decide) (skeleton_minimize code)).mpr hcode
  rw [(Delimiters.firstUnmatched_eq_none_iff (by decide)).mpr hminimized] at hfirst
  cases hfirst

namespace Dialect

variable {source code : List Char}

/-- The text of a tree compiles to instructions with partnered loop brackets. -/
lemma isCode_and_balanced_of_compile (h : compile .beta source = .ok code) :
    Alpha.IsCode code ∧ Delimiters.loop.Balanced code := by
  obtain ⟨tree, -, h⟩ := bind_eq_ok_iff.mp h
  obtain ⟨tokens, hcompile, hlower⟩ := bind_eq_ok_iff.mp h
  obtain ⟨code', hlower', hbalanced⟩ := Beta.exists_lower_of_compile hcompile
  obtain rfl := Except.ok.inj (hlower'.symm.trans hlower)
  exact ⟨Alpha.isCode_of_lower hlower, hbalanced⟩

/-- The text of a tree that compiles is stopped by nothing but its input or output. -/
lemma ofRun_of_compileAndRun {fuel start : Nat} {tape : Tape} {input : Input} {sink : Sink}
    {halt : Halt} {fault : Fault} (h : compile .beta source = .ok code)
    (hrun : compileAndRun fuel .beta source start tape input sink = some halt)
    (hfault : halt.result = .error fault) : fault.OfRun := by
  rw [compileAndRun, h] at hrun
  exact ofRun_of_execute (isCode_and_balanced_of_compile h).2 hrun hfault

/-- If the text of a tree compiles, then to instructions only, each of whose loop brackets has its
partner, and wherever the program is started, on whatever tape, input and sink, it fails only
because its input is used up or because input or output fails. -/
theorem sound_of_compile (h : compile .beta source = .ok code) :
    (∀ c ∈ code, (Instruction.ofChar? c).isSome = true) ∧
      Delimiters.loop.firstUnmatched code = none ∧
      (∀ i, code[i]? = some '[' → ∃ j, Delimiters.loop.matchIndex code i .forward = some j) ∧
      (∀ i, code[i]? = some ']' → ∃ j, Delimiters.loop.matchIndex code i .backward = some j) ∧
      ∀ fuel start tape input sink halt fault,
        compileAndRun fuel .beta source start tape input sink = some halt →
        halt.result = .error fault → fault = .inputExhausted ∨ ∃ message, fault = .io message := by
  obtain ⟨hcode, hbalanced⟩ := isCode_and_balanced_of_compile h
  refine ⟨hcode, (Delimiters.firstUnmatched_eq_none_iff (by decide)).mpr hbalanced, ?_, ?_, ?_⟩
  · intro i hi
    exact hbalanced.exists_matchIndex_forward (by decide) hi
  · intro i hi
    exact hbalanced.exists_matchIndex_backward (by decide) hi
  · intro fuel start tape input sink halt fault hrun hfault
    exact ofRun_of_compileAndRun h hrun hfault

/-- A loop around a move compiles to three loops. Started at its read and with nothing to read, it
stops there. -/
theorem sound_of_compile_loop :
    compile .beta "(while-n-0 (move-relative 1) (input))".toList =
        .ok "[>[-]<[->+<],]".toList ∧
      Delimiters.loop.firstUnmatched "[>[-]<[->+<],]".toList = none ∧
      (∃ j, Delimiters.loop.matchIndex "[>[-]<[->+<],]".toList 13 .backward = some j) ∧
      ∃ halt, compileAndRun 9 .beta "(while-n-0 (move-relative 1) (input))".toList 12
          (Tape.blank 2) [] Sink.unlimited = some halt ∧ halt.result = .error .inputExhausted := by
  have hparse : Tree.parse "(while-n-0 (move-relative 1) (input))".toList =
      .ok (.list [.atom "while-n-0".toList,
        .list [.atom "move-relative".toList, .atom "1".toList],
        .list [.atom "input".toList]]) := by decide +kernel
  have hlower : Alpha.lower "[mf1,]".toList = .ok "[>[-]<[->+<],]".toList := by
    rw [Alpha.lower_eq_pass]
    refine Alpha.pass_eq_ok_iff.mpr
      ⟨[['['], ">[-]<[->+<]".toList, [','], [']']],
        .cons ?_ (.cons ?_ (.cons ?_ (.cons ?_ .nil))), rfl⟩ <;>
      exact Alpha.Token.lower_eq_ok_iff.mpr ⟨1, rfl, rfl⟩
  have hcompile : compile .beta "(while-n-0 (move-relative 1) (input))".toList =
      .ok "[>[-]<[->+<],]".toList :=
    bind_eq_ok_iff.mpr ⟨_, hparse, bind_eq_ok_iff.mpr ⟨"[mf1,]".toList, rfl, hlower⟩⟩
  obtain ⟨-, hfirst, -, hbackward, -⟩ := sound_of_compile hcompile
  refine ⟨hcompile, hfirst, hbackward 13 rfl, ?_⟩
  rw [compileAndRun, hcompile]
  exact ⟨_, rfl, rfl⟩

end Dialect

end TapeTower
