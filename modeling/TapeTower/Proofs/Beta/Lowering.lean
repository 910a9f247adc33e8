import TapeTower.Proofs.Beta.Compilation

/-!
# Lowering trees without tokens

A tree reaches the machine by way of a text: its tokens are written down with nothing
between them, and the text is scanned again for tokens and numerals. `codeOfCall?` is the
short way. It writes program text straight from the tree and knows nothing of tokens.

The long way ends where the short way does (`codeOfCall?_of_compile`). This needs that each
token is read back as it was emitted, with its own argument and nothing of its neighbours.
-/

namespace TapeTower

namespace Alpha

/-- A part of a template, filled in for a distance. A command in it stands for its own
program text. -/
def Piece.fill (distance : Nat) : Piece → List Char
  | .literal text => text
  | .repeated instruction => List.replicate distance instruction
  | .command family direction => family.code direction distance

/-- The program text of a command is its template, filled in. -/
lemma flatMap_fill (family : Family) (direction : Direction) (distance : Nat) :
    (Template.standard family direction).flatMap (Piece.fill distance) =
      family.code direction distance := by
  cases family <;>
    simp [Template.standard, Piece.fill, Family.code, clearText, loopText, carryBody, goText]

end Alpha

namespace Beta

open Alpha

/-! ### From the tree to program text -/

/-- The number that the first argument writes. -/
def count? (function : Function) (arguments : List Tree) : Option Nat :=
  (countArgument function arguments).toOption.map Numeral.value

/-- The template of a family, filled in for the distance that the first argument writes, in
the direction of its sign. There is nothing to do over no distance. -/
def relativeCode? (family : Family) (function : Function) (arguments : List Tree) :
    Option (List Char) := do
  let distance ← (distanceArgument function arguments).toOption
  if distance = 0 then return []
  let direction := if 0 < distance then .forward else .backward
  return (Template.standard family direction).flatMap (Piece.fill distance.natAbs)

mutual

/-- The program text of a call. -/
def codeOfCall? : Tree → Option (List Char)
  | .atom _ => none
  | .list [] => none
  | .list (.list _ :: _) => none
  | .list (.atom name :: arguments) =>
    match Function.ofName? (String.ofList name) with
    | none => none
    | some function =>
      match function with
      | .progn => codeOfCalls? arguments
      | .whileNonzero => (codeOfCalls? arguments).map fun body => '[' :: (body ++ [']'])
      | .input => some [',']
      | .output => some ['.']
      | .setTo => (count? function arguments).map fun n =>
        ['[', '-', ']'] ++ List.replicate (n % cellModulus) '+'
      | .addRelative => relativeCode? .add function arguments
      | .subRelative => relativeCode? .sub function arguments
      | .moveRelative => relativeCode? .move function arguments
      | .increment => (count? function arguments).map fun n =>
        List.replicate (n % cellModulus) '+'
      | .decrement => (count? function arguments).map fun n =>
        List.replicate (n % cellModulus) '-'
      | .right => (count? function arguments).map fun n => List.replicate (min n largest) '>'
      | .left => (count? function arguments).map fun n => List.replicate (min n largest) '<'

/-- The program texts of some calls, one after the other. -/
def codeOfCalls? : List Tree → Option (List Char)
  | [] => some []
  | call :: calls => do return (← codeOfCall? call) ++ (← codeOfCalls? calls)

end

/-! ### Emitted tokens -/

variable {function : Function} {arguments : List Tree} {ts : List (Token UInt32)}

/-- A verb with a count is emitted with the count that the first argument writes. -/
lemma map_count?_eq_some {verb : Verb} {reading : Numeral → UInt32} {code : Nat → List Char}
    (h : counted verb reading function arguments = .ok ts)
    (hcode : ∀ n, Token.code ⟨verb, reading n⟩ = code n.value) :
    (count? function arguments).map code = some (ts.flatMap Token.code) := by
  obtain ⟨n, hn, hts⟩ := bind_eq_ok_iff.mp h
  cases hts
  have hcount : count? function arguments = some n.value := by
    rw [count?, hn]
    rfl
  rw [hcount, Option.map_some, List.flatMap_singleton, hcode]

/-- The command of a family is emitted with the distance that the first argument writes. -/
lemma relativeCode?_eq_some {family : Family} (h : relative family function arguments = .ok ts) :
    relativeCode? family function arguments = some (ts.flatMap Token.code) := by
  obtain ⟨distance, hd, -⟩ := bind_eq_ok_iff.mp h
  obtain ⟨hle, rfl⟩ := eq_of_relative hd h
  have hread : relativeCode? family function arguments =
      if distance = 0 then some [] else some ((Template.standard family
        (if 0 < distance then .forward else .backward)).flatMap (Piece.fill distance.natAbs)) := by
    rw [relativeCode?, hd]
    rfl
  rw [hread, List.flatMap_singleton, Token.code]
  simp only [toNat_ofNat_of_le_largest hle, Int.natAbs_eq_zero, flatMap_fill]
  split <;> rfl

mutual

/-- The program texts of the tokens of a call are the program text of the call. -/
theorem codeOfCall?_of_tokensOfCall : ∀ (t : Tree) {ts : List (Token UInt32)},
    tokensOfCall t = .ok ts → codeOfCall? t = some (ts.flatMap Token.code)
  | .atom _, _, h => by
    rw [tokensOfCall] at h
    cases h
  | .list [], _, h => by
    rw [tokensOfCall] at h
    cases h
  | .list (.list _ :: _), _, h => by
    rw [tokensOfCall] at h
    cases h
  | .list (.atom name :: arguments), ts, h => by
    rw [tokensOfCall] at h
    rw [codeOfCall?]
    cases hname : Function.ofName? (String.ofList name) with
    | none =>
      rw [hname] at h
      cases h
    | some function =>
      rw [hname] at h
      cases function with
      | progn => exact codeOfCalls?_of_tokensOfCalls arguments h
      | whileNonzero =>
        obtain ⟨us, hus, hts⟩ := bind_eq_ok_iff.mp h
        cases hts
        have hbody := codeOfCalls?_of_tokensOfCalls arguments hus
        simp only [hbody, Option.map_some, code_loop, loopText]
      | input =>
        cases h
        rfl
      | output =>
        cases h
        rfl
      | setTo =>
        exact map_count?_eq_some h fun n => by rw [Token.code, n.toNat_wrapping]; rfl
      | addRelative => exact relativeCode?_eq_some h
      | subRelative => exact relativeCode?_eq_some h
      | moveRelative => exact relativeCode?_eq_some h
      | increment => exact map_count?_eq_some h fun n => by rw [Token.code, n.toNat_wrapping]
      | decrement => exact map_count?_eq_some h fun n => by rw [Token.code, n.toNat_wrapping]
      | right => exact map_count?_eq_some h fun n => by rw [Token.code, toNat_saturating]
      | left => exact map_count?_eq_some h fun n => by rw [Token.code, toNat_saturating]

/-- The program texts of the tokens of some calls are the program texts of the calls. -/
theorem codeOfCalls?_of_tokensOfCalls : ∀ (calls : List Tree) {ts : List (Token UInt32)},
    tokensOfCalls calls = .ok ts → codeOfCalls? calls = some (ts.flatMap Token.code)
  | [], _, h => by
    rw [tokensOfCalls] at h
    cases h
    rfl
  | call :: calls, _, h => by
    rw [tokensOfCalls] at h
    obtain ⟨ts, hts, h⟩ := bind_eq_ok_iff.mp h
    obtain ⟨us, hus, h⟩ := bind_eq_ok_iff.mp h
    cases h
    have hcall := codeOfCall?_of_tokensOfCall call hts
    have hcalls := codeOfCalls?_of_tokensOfCalls calls hus
    rw [codeOfCalls?, hcall, hcalls, List.flatMap_append]
    rfl

end

/-! ### The two ways -/

/-- If a tree compiles, then its text is lowered, and to the program text that is written
straight from the tree. This consists of instructions only, and each token that was emitted
is read from the text as it was. -/
theorem codeOfCall?_of_compile {tree : Tree} {text : List Char} (h : compile tree = .ok text) :
    ∃ code, codeOfCall? tree = some code ∧ Alpha.lower text = .ok code ∧ IsCode code ∧
      ∃ ts, tokensOfCall tree = .ok ts ∧ text = ts.flatMap Token.render ∧
        Alpha.tokens text = ts.map Token.numeral := by
  obtain ⟨ts, hts, rfl⟩ := map_eq_ok_iff.mp h
  have hknown := (grouped_of_tokensOfCall tree hts).isKnown
  refine ⟨ts.flatMap Token.code, codeOfCall?_of_tokensOfCall tree hts,
    lower_flatMap_render hknown, ?_, ts, hts, rfl, tokens_flatMap_render hknown⟩
  intro c hc
  obtain ⟨token, htoken, hc⟩ := List.mem_flatMap.mp hc
  exact Token.isCode_code (hknown token htoken) c hc

/-- A count beyond a cell wraps, and neighbours keep their numerals apart. -/
theorem codeOfCall?_of_compile_wrapped :
    let tree := Tree.progn [.list [.atom "+".toList, .atom "4294967298".toList],
      .list [.atom "while-n-0".toList, .list [.atom "output".toList, .atom "7".toList],
        .list [.atom "move-relative".toList, .atom "-1".toList]]]
    compile tree = .ok "+2[.mb1]".toList ∧
      Alpha.lower "+2[.mb1]".toList = .ok "++[.<[-]>[-<+>]]".toList := by
  intro tree
  have hcompile : compile tree = .ok "+2[.mb1]".toList := by rfl
  have hcode : codeOfCall? tree = some "++[.<[-]>[-<+>]]".toList := by rfl
  obtain ⟨code, hcode', hlower, -⟩ := codeOfCall?_of_compile hcompile
  obtain rfl := Option.some.inj (hcode.symm.trans hcode')
  exact ⟨hcompile, hlower⟩

end Beta

end TapeTower
