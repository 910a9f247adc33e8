import Mathlib.Algebra.Group.Nat.Defs
import TapeTower.Proofs.Machine.Bounds
import TapeTower.Proofs.Machine.Delivery
import TapeTower.Proofs.Tape.Memory
import TapeTower.Session

/-!
# Whole sessions

A session is carried on by one action after the other (`Session.acts`). Two sessions whose
inputs are alike give the same answers to the same actions, and stay alike
(`Session.Alike.acts`): how the input of a session is delivered is never seen.

No action changes the number of cells (`Session.size_act`). All tapes of a session and of its
runs are therefore safe, between two actions as well as in the midst of a run
(`Session.Produces.safe_throughout`).
-/

namespace TapeTower

namespace Session

/-- Carries out some actions, one after the other, and gives all answers. -/
def acts (fuel : Nat) : Session → List Action → Option (Session × List Reply)
  | session, [] => some (session, [])
  | session, action :: actions => do
    let (session, reply) ← session.act fuel action
    let (session, replies) ← acts fuel session actions
    return (session, reply :: replies)

/-! ### Inputs that are alike -/

/-- Sessions with the same tape that differ at most in how their inputs are delivered. -/
structure Alike (session session' : Session) : Prop where
  tape : session.tape = session'.tape
  input : session.input.Alike session'.input

/-- The same answers, and sessions that are alike. -/
def SameReplies {α : Type} (s s' : Session × α) : Prop := s.1.Alike s'.1 ∧ s.2 = s'.2

namespace Alike

variable {session session' : Session}

lemma afterRun {halt halt' : Option Halt} (h : Option.Rel Halt.Alike halt halt') :
    Option.Rel SameReplies (halt.map Session.afterRun) (halt'.map Session.afterRun) := by
  cases h with
  | none => exact .none
  | some hhalt =>
    refine .some ⟨⟨hhalt.machine.tape, hhalt.machine.input⟩, ?_⟩
    simp only [Session.afterRun, hhalt.result, hhalt.machine.sink]

/-- An action has the same answer and leaves the sessions alike. -/
theorem act (h : session.Alike session') (fuel : Nat) (action : Action) :
    Option.Rel SameReplies (session.act fuel action) (session'.act fuel action) := by
  obtain ⟨tape, input⟩ := session
  obtain ⟨tape', input'⟩ := session'
  obtain ⟨rfl, hinput⟩ := h
  cases action with
  | feed deliveries => exact .some ⟨⟨rfl, hinput.append deliveries⟩, rfl⟩
  | execute code start sink => exact afterRun (hinput.execute fuel code start tape sink)
  | run dialect source start sink =>
    refine afterRun ?_
    unfold Dialect.compileAndRun
    cases dialect.compile source with
    | ok code => exact hinput.execute fuel code start tape sink
    | error fault => exact .some ⟨rfl, rfl, hinput, rfl, rfl⟩
  | _ => exact .some ⟨⟨rfl, hinput⟩, rfl⟩

/-- All actions have the same answers. -/
theorem acts (h : session.Alike session') (fuel : Nat) (actions : List Action) :
    Option.Rel SameReplies (session.acts fuel actions) (session'.acts fuel actions) := by
  induction actions generalizing session session' with
  | nil => exact .some ⟨h, rfl⟩
  | cons action actions ih =>
    have hact := h.act fuel action
    rw [Session.acts, Session.acts]
    generalize session.act fuel action = first at hact
    generalize session'.act fuel action = first' at hact
    cases hact with
    | none => exact .none
    | @some next next' hnext =>
      have hrest := ih hnext.1
      simp only [Option.bind_eq_bind, Option.bind_some]
      generalize next.1.acts fuel actions = last at hrest
      generalize next'.1.acts fuel actions = last' at hrest
      cases hrest with
      | none => exact .none
      | some hlast => exact .some ⟨hlast.1, congrArg₂ List.cons hnext.2 hlast.2⟩

end Alike

/-- How an input is delivered cannot be seen: inputs from which the same bytes and failures
arrive in the same order give the same run of every program, with the same result, output and
tape, and what is left of them is alike again; and they give the same answers in every session. -/
theorem execute_and_acts_alike {a b : Input} (h : a.Alike b) :
    (∀ fuel code start tape sink, Option.Rel Halt.Alike (execute fuel code start tape a sink)
      (execute fuel code start tape b sink)) ∧
    ∀ fuel tape actions, Option.Rel SameReplies (acts fuel ⟨tape, a⟩ actions)
      (acts fuel ⟨tape, b⟩ actions) := by
  refine ⟨h.execute, ?_⟩
  intro fuel tape actions
  have hsession : Alike ⟨tape, a⟩ ⟨tape, b⟩ := ⟨rfl, h⟩
  exact hsession.acts fuel actions

/-- A character arrives in one piece, or in two with an interruption and an empty chunk between
them. Behind it the source fails. -/
theorem execute_and_acts_alike_apart :
    let a : Input := [.chunk [0xC3, 0xA9], .failure "gone", .chunk [0x41]]
    let b : Input := [.chunk [0xC3], .interruption, .chunk [], .chunk [0xA9], .failure "gone",
      .interruption, .chunk [0x41]]
    a.Alike b ∧
      (∃ halt halt', execute 4 ",.,".toList 0 (Tape.blank 1) a Sink.unlimited = some halt ∧
        execute 4 ",.,".toList 0 (Tape.blank 1) b Sink.unlimited = some halt' ∧
        halt.result = .error (.io "gone") ∧ halt.Alike halt') ∧
      ∀ fuel tape actions, Option.Rel SameReplies (acts fuel ⟨tape, a⟩ actions)
        (acts fuel ⟨tape, b⟩ actions) := by
  intro a b
  have hab : a.Alike b := rfl
  obtain ⟨hexecute, hacts⟩ := execute_and_acts_alike hab
  refine ⟨hab, ?_, hacts⟩
  have hend := hexecute 4 ",.,".toList 0 (Tape.blank 1) Sink.unlimited
  obtain ⟨halt, hhalt, hresult⟩ : ∃ halt,
      execute 4 ",.,".toList 0 (Tape.blank 1) a Sink.unlimited = some halt ∧
        halt.result = .error (.io "gone") := ⟨_, rfl, rfl⟩
  rw [hhalt] at hend
  generalize execute 4 ",.,".toList 0 (Tape.blank 1) b Sink.unlimited = last at hend ⊢
  cases hend with
  | some halike => exact ⟨halt, _, hhalt, rfl, hresult, halike⟩

/-! ### The number of cells -/

/-- No action changes the number of cells. -/
theorem size_act {fuel : Nat} {session after : Session} {action : Action} {reply : Reply}
    (h : session.act fuel action = some (after, reply)) : after.tape.size = session.tape.size := by
  cases action with
  | moveTo index =>
    cases h
    exact session.tape.size_moveTo index
  | set index value =>
    cases h
    exact session.tape.size_set index value
  | setCurrent value =>
    cases h
    exact session.tape.size_setCurrent value
  | execute code start sink =>
    obtain ⟨halt, hhalt, hafter⟩ := Option.map_eq_some_iff.mp h
    cases hafter
    exact size_execute hhalt
  | run dialect source start sink =>
    obtain ⟨halt, hhalt, hafter⟩ := Option.map_eq_some_iff.mp h
    cases hafter
    exact size_compileAndRun hhalt
  | _ =>
    cases h
    rfl

/-- The tapes of sessions that begin with a blank tape. Each action may find another input. -/
inductive Produces (size : Nat) : Tape → Prop
  | blank : Produces size (Tape.blank size)
  | act {tape : Tape} {input : Input} {fuel : Nat} {action : Action} {after : Session}
      {reply : Reply} (h : Produces size tape)
      (hact : Session.act fuel ⟨tape, input⟩ action = some (after, reply)) :
      Produces size after.tape

lemma Produces.size_eq {size : Nat} {tape : Tape} (h : Produces size tape) :
    tape.size = max size 1 := by
  induction h with
  | blank => exact Tape.size_blank size
  | act _ hact ih => exact (size_act hact).trans ih

/-- All tapes of a session are safe, and so are the tapes at every point of a run on them, be it
one that succeeds, fails or goes on for ever. -/
theorem Produces.safe_throughout {size largest : Nat} {tape : Tape} (h : Produces size tape)
    (hword : max size 1 ≤ largest) :
    tape.Safe largest size ∧ ∀ (code : List Char) (start : Nat) (input : Input) (sink : Sink)
      (s : Configuration),
      Configuration.Reaches ⟨Place.atByte (minimize code) start, ⟨tape, input, sink, ""⟩⟩ s →
        s.machine.tape.Safe largest size := by
  refine ⟨tape.safe h.size_eq hword, ?_⟩
  intro code start input sink s hs
  exact s.machine.tape.safe (hs.size_tape.trans h.size_eq) hword

/-- A tape that is asked for with no cell has one. Here the cursor is sent to the largest word of
64 bits, and then a run fails because there is no input. -/
theorem Produces.safe_throughout_largest :
    let largest := 2 ^ 64 - 1
    ∃ tape, Produces 0 tape ∧ max 0 1 ≤ largest ∧ tape.Safe largest 0 ∧
      ∀ (code : List Char) (start : Nat) (input : Input) (sink : Sink) (s : Configuration),
        Configuration.Reaches ⟨Place.atByte (minimize code) start, ⟨tape, input, sink, ""⟩⟩ s →
          s.machine.tape.Safe largest 0 := by
  intro largest
  have hword : max 0 1 ≤ largest := by decide
  obtain ⟨moved, _, hmoved⟩ : ∃ moved reply, Session.act 0 ⟨Tape.blank 0, []⟩
      (.moveTo largest) = some (moved, reply) := ⟨_, _, rfl⟩
  obtain ⟨failed, written, hfailed⟩ : ∃ failed written, Session.act 4 ⟨moved.tape, []⟩
      (.execute ">-,".toList 0 Sink.unlimited) =
        some (failed, .ran (.error .inputExhausted) written) := by
    cases hmoved
    exact ⟨_, _, rfl⟩
  have htape : Produces 0 failed.tape := (Produces.blank.act hmoved).act hfailed
  obtain ⟨hsafe, hruns⟩ := Produces.safe_throughout htape hword
  exact ⟨failed.tape, htape, hword, hsafe, hruns⟩

end Session

end TapeTower
