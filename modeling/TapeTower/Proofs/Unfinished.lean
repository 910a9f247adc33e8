import TapeTower.Proofs.Beta.Safety
import TapeTower.Proofs.Dialect
import TapeTower.Proofs.Partner
import TapeTower.Proofs.Tree.Faults

/-!
# Unfinished texts

More text is needed exactly if the balance check reports an opening delimiter
(`Dialect.needsMore_iff`). Such a text is the beginning of a balanced one and not balanced itself
(`Dialect.needsMore_iff_balanced`), so that waiting for more is never in vain, and not waiting
never gives up a text that could still be completed.

This is compared here with what becomes of the text when it is compiled and run. A program is
checked once it is minimized, but minimizing leaves its brackets alone. A tree is checked by the
parser, which reports no opening parenthesis unless the balance check does, and accepts balanced
texts only. Behind the parser no fault is about a delimiter: the calls of a tree are lowered to a
program whose brackets are partnered.
-/

namespace TapeTower

/-! ### Faults about delimiters -/

/-- A fault about a delimiter that has no partner. -/
def Fault.OfDelimiter (fault : Fault) : Prop :=
  ∃ delimiter position, fault = .unmatchedDelimiter delimiter position

lemma Fault.OfDelimiter.not_ofRun {fault : Fault} (h : fault.OfDelimiter) : ¬ fault.OfRun := by
  obtain ⟨delimiter, position, rfl⟩ := h
  simp [Fault.OfRun]

namespace Beta

open Alpha

variable {function : Function} {arguments : List Tree} {fault : Fault}

lemma not_ofDelimiter_of_atomArgument (h : atomArgument function arguments = .error fault) :
    ¬ fault.OfDelimiter := by
  unfold atomArgument at h
  split at h
  · cases h
  · cases h
  · cases h
    rintro ⟨_, _, h⟩
    cases h

lemma not_ofDelimiter_of_countArgument (h : countArgument function arguments = .error fault) :
    ¬ fault.OfDelimiter := by
  rcases bind_eq_error_iff.mp h with h | ⟨argument, -, h⟩
  · exact not_ofDelimiter_of_atomArgument h
  · split at h
    · cases h
    · split at h
      · cases h
      · cases h
        rintro ⟨_, _, h⟩
        cases h

lemma not_ofDelimiter_of_distanceArgument
    (h : distanceArgument function arguments = .error fault) : ¬ fault.OfDelimiter := by
  rcases bind_eq_error_iff.mp h with h | ⟨argument, -, h⟩
  · exact not_ofDelimiter_of_atomArgument h
  · split at h
    · cases h
    · split at h
      · cases h
      · cases h
        rintro ⟨_, _, h⟩
        cases h

lemma not_ofDelimiter_of_counted {verb : Verb} {reading : Numeral → UInt32}
    (h : counted verb reading function arguments = .error fault) : ¬ fault.OfDelimiter := by
  rcases bind_eq_error_iff.mp h with h | ⟨numeral, -, h⟩
  · exact not_ofDelimiter_of_countArgument h
  · cases h

lemma not_ofDelimiter_of_relative {family : Family}
    (h : relative family function arguments = .error fault) : ¬ fault.OfDelimiter := by
  rcases bind_eq_error_iff.mp h with h | ⟨distance, -, h⟩
  · exact not_ofDelimiter_of_distanceArgument h
  · rcases bind_eq_error_iff.mp h with h | ⟨token, -, h⟩
    · unfold Token.relative at h
      split at h
      · cases h
      · cases h
        rintro ⟨_, _, h⟩
        cases h
    · cases h

mutual

/-- No fault of a call is about a delimiter. -/
theorem not_ofDelimiter_of_tokensOfCall : ∀ (t : Tree) {fault : Fault},
    tokensOfCall t = .error fault → ¬ fault.OfDelimiter
  | .atom _, _, h => by
    rw [tokensOfCall] at h
    cases h
    simp [Fault.OfDelimiter]
  | .list [], _, h => by
    rw [tokensOfCall] at h
    cases h
    simp [Fault.OfDelimiter]
  | .list (.list _ :: _), _, h => by
    rw [tokensOfCall] at h
    cases h
    simp [Fault.OfDelimiter]
  | .list (.atom name :: arguments), _, h => by
    rw [tokensOfCall] at h
    cases hname : Function.ofName? (String.ofList name) with
    | none =>
      rw [hname] at h
      cases h
      simp [Fault.OfDelimiter]
    | some function =>
      rw [hname] at h
      cases function with
      | progn => exact not_ofDelimiter_of_tokensOfCalls arguments h
      | whileNonzero =>
        rcases bind_eq_error_iff.mp h with h | ⟨ts, -, h⟩
        · exact not_ofDelimiter_of_tokensOfCalls arguments h
        · cases h
      | input => cases h
      | output => cases h
      | addRelative => exact not_ofDelimiter_of_relative h
      | subRelative => exact not_ofDelimiter_of_relative h
      | moveRelative => exact not_ofDelimiter_of_relative h
      | _ => exact not_ofDelimiter_of_counted h

/-- No fault of some calls is about a delimiter. -/
theorem not_ofDelimiter_of_tokensOfCalls : ∀ (calls : List Tree) {fault : Fault},
    tokensOfCalls calls = .error fault → ¬ fault.OfDelimiter
  | [], _, h => by
    rw [tokensOfCalls] at h
    cases h
  | call :: calls, _, h => by
    rw [tokensOfCalls] at h
    rcases bind_eq_error_iff.mp h with h | ⟨ts, -, h⟩
    · exact not_ofDelimiter_of_tokensOfCall call h
    · rcases bind_eq_error_iff.mp h with h | ⟨us, -, h⟩
      · exact not_ofDelimiter_of_tokensOfCalls calls h
      · cases h

end

/-- A tree does not fail to compile for a delimiter. -/
lemma not_ofDelimiter_of_compile {tree : Tree} (h : compile tree = .error fault) :
    ¬ fault.OfDelimiter := by
  unfold compile at h
  cases htokens : tokensOfCall tree with
  | error fault' =>
    rw [htokens] at h
    cases h
    exact not_ofDelimiter_of_tokensOfCall tree htokens
  | ok tokens =>
    rw [htokens] at h
    cases h

end Beta

namespace Dialect

open Delimiters

/-! ### When more text is needed -/

/-- More text is needed if the balance check reports an opening delimiter. The net depth of the
text tells nothing more. -/
theorem needsMore_iff {dialect : Dialect} {text : List Char} :
    dialect.needsMore text = true ↔
      ∃ i, dialect.delimiters.firstUnmatched text = some (.opening, i) := by
  unfold needsMore isComplete
  constructor
  · intro h
    rw [Bool.and_eq_true] at h
    obtain ⟨-, h⟩ := h
    split at h
    · next i hi => exact ⟨i, hi⟩
    · cases h
  · intro h
    have hdepth := (exists_firstUnmatched_opening_iff.mp h).2
    obtain ⟨i, hi⟩ := h
    have hmatched : dialect.delimiters.allMatched text = false := by
      rw [← Bool.not_eq_true, allMatched_iff]
      omega
    rw [hmatched, hi]
    rfl

lemma opening_ne_closing (dialect : Dialect) :
    dialect.delimiters.opening ≠ dialect.delimiters.closing := by
  cases dialect <;> decide

/-- More text is needed by the texts that balanced texts begin with and that are not balanced
themselves: the levels that they leave open can still be closed. -/
theorem needsMore_iff_balanced {dialect : Dialect} {text : List Char} :
    dialect.needsMore text = true ↔
      ¬ dialect.delimiters.Balanced text ∧ ∃ rest, dialect.delimiters.Balanced (text ++ rest) := by
  have hd := dialect.opening_ne_closing
  rw [needsMore_iff, exists_firstUnmatched_opening_iff, ← covered_iff_exists_balanced hd,
    balanced_iff_covered hd]
  constructor
  · rintro ⟨hcovered, hdepth⟩
    exact ⟨fun h => by omega, hcovered⟩
  · rintro ⟨hnot, hcovered⟩
    have hnonneg := hcovered.netDepth_nonneg
    have hne : dialect.delimiters.netDepth text ≠ 0 := fun hzero => hnot ⟨hcovered, hzero⟩
    exact ⟨hcovered, by omega⟩

/-- A text needs more if it is not balanced, that is if it has a delimiter without a partner, and
something can follow it that makes it balanced. What is not balanced and needs no more stays so,
whatever follows. -/
theorem needsMore_iff_unfinished (dialect : Dialect) (text : List Char) :
    (dialect.needsMore text = true ↔
      ¬ dialect.delimiters.Balanced text ∧ ∃ rest, dialect.delimiters.Balanced (text ++ rest)) ∧
    (dialect.needsMore text = false → ¬ dialect.delimiters.Balanced text →
      ∀ rest, ¬ dialect.delimiters.Balanced (text ++ rest)) ∧
    ∀ t, dialect.delimiters.Balanced t ↔ ∀ i, ¬ dialect.delimiters.Unpartnered t i := by
  have hd := dialect.opening_ne_closing
  refine ⟨needsMore_iff_balanced, ?_, ?_⟩
  · intro hmore hnot rest hrest
    have hopen := needsMore_iff_balanced.mpr ⟨hnot, rest, hrest⟩
    rw [hmore] at hopen
    cases hopen
  · intro t
    rw [← firstUnmatched_eq_none_iff hd, firstUnmatched_eq_none_iff_forall hd]

/-- Two groups that are left open can still be closed. A bracket that closes before anything is
open stays without a partner, also where as many open behind it. -/
theorem needsMore_iff_unfinished_crossed :
    alpha.needsMore "=2[->[,]".toList = true ∧
      (¬ loop.Balanced "=2[->[,]".toList ∧ ∃ rest, loop.Balanced ("=2[->[,]".toList ++ rest)) ∧
      base.needsMore "][".toList = false ∧ base.isComplete "][".toList = true ∧
      ¬ loop.Balanced "][".toList ∧ ∀ rest, ¬ loop.Balanced ("][".toList ++ rest) := by
  have hopen : alpha.needsMore "=2[->[,]".toList = true := by decide
  have hclose : base.needsMore "][".toList = false := by decide
  have hnot : ¬ loop.Balanced "][".toList := by
    rw [← firstUnmatched_eq_none_iff (by decide)]
    decide
  obtain ⟨hunfinished, -, -⟩ := needsMore_iff_unfinished alpha "=2[->[,]".toList
  obtain ⟨-, hstays, -⟩ := needsMore_iff_unfinished base "][".toList
  exact ⟨hopen, hunfinished.mp hopen, hclose, by decide, hnot, hstays hclose hnot⟩

variable {text : List Char} {fuel start : Nat} {tape : Tape} {input : Input} {sink : Sink}

/-- A program that needs more text is refused. -/
lemma exists_execute_of_needsMore (h : needsMore .base text = true) (fuel start : Nat)
    (tape : Tape) (input : Input) (sink : Sink) :
    ∃ fault, execute fuel text start tape input sink =
      some ⟨.error fault, ⟨tape, input, sink, ""⟩⟩ := by
  obtain ⟨i, hi⟩ : ∃ i, Delimiters.loop.firstUnmatched (minimize text) = some (.opening, i) :=
    (exists_firstUnmatched_opening_iff_of_skeleton_eq (skeleton_minimize text)).mpr
      (needsMore_iff.mp h)
  simp only [execute, hi]
  exact ⟨_, rfl⟩

/-- A tree that needs more text is not read. -/
lemma exists_parse_of_needsMore (h : needsMore .beta text = true) :
    ∃ fault, Tree.parse text = .error fault := by
  cases hparse : Tree.parse text with
  | error fault => exact ⟨fault, rfl⟩
  | ok tree =>
    have hnone : Delimiters.paren.firstUnmatched text = none :=
      (firstUnmatched_eq_none_iff (by decide)).mpr (Tree.balanced_of_parse hparse)
    obtain ⟨i, hi⟩ := needsMore_iff.mp h
    rw [delimiters, hnone] at hi
    cases hi

/-- A program that needs no more text is not refused for an opening bracket. -/
lemma ne_opening_of_execute {halt : Halt} {delimiter : Char} {position : Nat}
    (hmore : needsMore .base text = false)
    (h : execute fuel text start tape input sink = some halt)
    (hresult : halt.result = .error (.unmatchedDelimiter delimiter position)) :
    delimiter = ']' := by
  have hkind : (Fault.unmatchedDelimiter delimiter position).OfDelimiter := ⟨_, _, rfl⟩
  obtain ⟨side, i, position', hfirst, rfl⟩ :=
    exists_firstUnmatched_of_execute h hresult hkind.not_ofRun
  cases hresult
  cases side with
  | closing => rfl
  | opening =>
    have hopen : needsMore .base text = true :=
      needsMore_iff.mpr ((exists_firstUnmatched_opening_iff_of_skeleton_eq
        (skeleton_minimize text)).mp ⟨i, hfirst⟩)
    rw [hmore] at hopen
    cases hopen

/-- A text of a tree that needs no more text does not fail for an opening delimiter. -/
lemma ne_opening_of_compileAndRun_beta {halt : Halt} {delimiter : Char} {position : Nat}
    (hmore : needsMore .beta text = false)
    (h : compileAndRun fuel .beta text start tape input sink = some halt)
    (hresult : halt.result = .error (.unmatchedDelimiter delimiter position)) :
    delimiter = ')' := by
  have hkind : (Fault.unmatchedDelimiter delimiter position).OfDelimiter := ⟨_, _, rfl⟩
  unfold compileAndRun at h
  split at h
  · next code hcode =>
    have hcompile : compile .beta text = .ok code := hcode
    have hrun : compileAndRun fuel .beta text start tape input sink = some halt := by
      rw [compileAndRun, hcompile]
      exact h
    exact absurd (ofRun_of_compileAndRun hcompile hrun hresult) hkind.not_ofRun
  · next fault hfault =>
    cases h
    obtain rfl := Except.error.inj hresult
    rcases bind_eq_error_iff.mp hfault with hparse | ⟨tree, hparse, hfault⟩
    · by_contra hclose
      have hopen : needsMore .beta text = true :=
        needsMore_iff.mpr (Tree.exists_firstUnmatched_of_parse hclose hparse)
      rw [hmore] at hopen
      cases hopen
    · rcases bind_eq_error_iff.mp hfault with hcompile | ⟨tokens, hcompile, hlower⟩
      · exact absurd hkind (Beta.not_ofDelimiter_of_compile hcompile)
      · obtain ⟨code, hlower', -⟩ := Beta.exists_lower_of_compile hcompile
        rw [hlower] at hlower'
        cases hlower'

/-- A program or the text of a tree that needs more text fails wherever it is run, and leaves
tape, input and sink as they were. One that needs no more text never fails because an opening
delimiter has no partner. -/
theorem compileAndRun_of_needsMore (dialect : Dialect) (hdialect : dialect ≠ .alpha)
    (text : List Char) :
    (dialect.needsMore text = true →
      ∀ fuel start tape input sink, ∃ fault,
        dialect.compileAndRun fuel text start tape input sink =
          some ⟨.error fault, ⟨tape, input, sink, ""⟩⟩) ∧
    (dialect.needsMore text = false →
      ∀ fuel start tape input sink halt,
        dialect.compileAndRun fuel text start tape input sink = some halt →
        ∀ position, halt.result ≠ .error (.unmatchedDelimiter '(' position) ∧
          halt.result ≠ .error (.unmatchedDelimiter '[' position)) := by
  cases dialect with
  | alpha => exact absurd rfl hdialect
  | base =>
    refine ⟨fun hmore => exists_execute_of_needsMore hmore, ?_⟩
    intro hmore fuel start tape input sink halt h position
    constructor
    · intro hresult
      exact absurd (ne_opening_of_execute hmore h hresult) (by decide)
    · intro hresult
      exact absurd (ne_opening_of_execute hmore h hresult) (by decide)
  | beta =>
    constructor
    · intro hmore fuel start tape input sink
      obtain ⟨fault, hparse⟩ := exists_parse_of_needsMore hmore
      have hcompile : compile .beta text = .error fault :=
        bind_eq_error_iff.mpr (Or.inl hparse)
      refine ⟨fault, ?_⟩
      rw [compileAndRun, hcompile]
    · intro hmore fuel start tape input sink halt h position
      constructor
      · intro hresult
        exact absurd (ne_opening_of_compileAndRun_beta hmore h hresult) (by decide)
      · intro hresult
        exact absurd (ne_opening_of_compileAndRun_beta hmore h hresult) (by decide)

/-- A call that is not closed waits for more text. Brackets that close before they open do not,
and what is reported is the one that closes. -/
theorem compileAndRun_of_needsMore_call :
    (beta ≠ .alpha ∧ beta.needsMore "(progn (output)".toList = true ∧
      ∀ fuel start tape input sink, ∃ fault,
        beta.compileAndRun fuel "(progn (output)".toList start tape input sink =
          some ⟨.error fault, ⟨tape, input, sink, ""⟩⟩) ∧
    base ≠ .alpha ∧ base.needsMore "+][".toList = false ∧
      base.compileAndRun 0 "+][".toList 0 (Tape.blank 1) [] Sink.unlimited =
        some ⟨.error (.unmatchedDelimiter ']' 1), ⟨Tape.blank 1, [], Sink.unlimited, ""⟩⟩ ∧
      ∀ fuel start tape input sink halt,
        base.compileAndRun fuel "+][".toList start tape input sink = some halt →
        ∀ position, halt.result ≠ .error (.unmatchedDelimiter '(' position) ∧
          halt.result ≠ .error (.unmatchedDelimiter '[' position) := by
  have hcall : beta.needsMore "(progn (output)".toList = true := by decide
  have hbrackets : base.needsMore "+][".toList = false := by decide
  have hbeta : beta ≠ .alpha := by decide
  have hbase : base ≠ .alpha := by decide
  refine ⟨⟨hbeta, hcall, ?_⟩, hbase, hbrackets, rfl, ?_⟩
  · exact (compileAndRun_of_needsMore beta hbeta "(progn (output)".toList).1 hcall
  · exact (compileAndRun_of_needsMore base hbase "+][".toList).2 hbrackets

end Dialect

end TapeTower
