import Mathlib.Tactic.Common
import TapeTower.Proofs.Input.Sequence

/-!
# Reading decodes

An input is read character by character until it is exhausted. As long as its source does not
fail, this decodes the bytes of the input, in whatever chunks they arrive and however often the
source is interrupted (`Input.exists_yields_decodes`).

One step is described first: what is read next is what stands first (`readCharacter_cases`).
-/

namespace TapeTower.Input

/-- The source of the input never fails. It may still be interrupted. -/
def NeverFails (input : Input) : Prop :=
  ∀ message, .failure message ∉ input

lemma NeverFails.tail {delivery : Delivery} {input : Input}
    (h : NeverFails (delivery :: input)) : input.NeverFails :=
  fun message hmem => h message (List.mem_cons_of_mem delivery hmem)

lemma NeverFails.chunk_cons {input : Input} (h : input.NeverFails) (bytes : List UInt8) :
    NeverFails (.chunk bytes :: input) := by
  intro message hmem
  rcases List.mem_cons.mp hmem with heq | hmem
  · contradiction
  · exact h message hmem

/-! ### The next byte -/

/-- What is found next is the first byte of the input. -/
lemma next_cases {input : Input} (h : input.NeverFails) :
    (input.bytes = [] ∧ input.next = .done) ∨
      ∃ value rest, input.next = .byte value rest ∧ input.bytes = value :: rest.bytes ∧
        rest.NeverFails := by
  induction input with
  | nil => exact Or.inl ⟨rfl, rfl⟩
  | cons delivery input ih =>
    cases delivery with
    | interruption => exact ih h.tail
    | failure message => exact absurd List.mem_cons_self (h message)
    | chunk bytes =>
      cases bytes with
      | nil => exact ih h.tail
      | cons value bytes =>
        exact Or.inr ⟨value, .chunk bytes :: input, rfl, rfl, h.tail.chunk_cons bytes⟩

/-! ### The rest of a sequence -/

/-- The longest piece that may follow is consumed, up to the number of bytes that are asked
for. If the piece is shorter than that, the sequence is broken. -/
lemma readFollowing_cases (following : Nat) (low high : UInt8) (code : Nat) {input : Input}
    (h : input.NeverFails) :
    ∃ part rest, input.bytes = part ++ rest.bytes ∧ rest.NeverFails ∧
      (part.length = following ∧ Follow low high part ∧
          readFollowing following low high code input = (.ok (assemble code part), rest) ∨
        part.length < following ∧ IsLongestFollow low high part rest.bytes ∧
          readFollowing following low high code input = (.ok replacement, rest)) := by
  induction following generalizing low high code input with
  | zero => exact ⟨[], input, rfl, h, Or.inl ⟨rfl, trivial, rfl⟩⟩
  | succ following ih =>
    rcases next_cases h with ⟨hbytes, hnext⟩ | ⟨value, rest, hnext, hbytes, hrest⟩
    · refine ⟨[], input, rfl, h, Or.inr ⟨Nat.succ_pos following, ?_, ?_⟩⟩
      · rw [hbytes]
        exact isLongestFollow_nil low high
      · rw [readFollowing, hnext]
    · by_cases hrange : low ≤ value ∧ value ≤ high
      · obtain ⟨part, rest', hpart, hrest', hread⟩ :=
          ih 0x80 0xBF (code * 64 + value.toNat % 64) hrest
        have hstep : readFollowing (following + 1) low high code input =
            readFollowing following 0x80 0xBF (code * 64 + value.toNat % 64) rest := by
          rw [readFollowing, hnext]
          exact if_pos hrange
        refine ⟨value :: part, rest', by rw [hbytes, hpart, List.cons_append], hrest', ?_⟩
        rw [hstep]
        rcases hread with ⟨hlength, hfollow, heq⟩ | ⟨hlength, hlongest, heq⟩
        · exact Or.inl ⟨congrArg Nat.succ hlength, ⟨hrange, hfollow⟩, heq⟩
        · exact Or.inr ⟨Nat.succ_lt_succ hlength, hlongest.cons hrange, heq⟩
      · refine ⟨[], input, rfl, h, Or.inr ⟨Nat.succ_pos following, ?_, ?_⟩⟩
        · rw [hbytes]
          exact isLongestFollow_nil_cons hrange rest.bytes
        · rw [readFollowing, hnext]
          exact if_neg hrange

/-! ### One character -/

/-- What is read next is what stands first, and nothing more is consumed. -/
lemma readCharacter_cases {input : Input} (h : input.NeverFails) :
    (input.bytes = [] ∧ input.readCharacter = (.error .inputExhausted, input)) ∨
      ∃ part rest code, input.readCharacter = (.ok code, rest) ∧ rest.NeverFails ∧
        input.bytes = part ++ rest.bytes ∧ Text.DecodesFirst part rest.bytes code := by
  rcases next_cases h with ⟨hbytes, hnext⟩ | ⟨first, rest, hnext, hbytes, hrest⟩
  · refine Or.inl ⟨hbytes, ?_⟩
    rw [readCharacter, hnext]
  right
  by_cases hsingle : first < 0x80
  · refine ⟨[first], rest, first.toNat, ?_, hrest, hbytes, decodesFirst_of_lt hsingle rest.bytes⟩
    rw [readCharacter, hnext]
    exact if_pos hsingle
  cases hform : SequenceForm.ofFirst? first with
  | none =>
    refine ⟨[first], rest, replacement, ?_, hrest, hbytes,
      .broken (isMaximalSubpart_of_ofFirst?_eq_none hsingle hform rest.bytes)⟩
    simp only [readCharacter, hnext, if_neg hsingle, hform]
  | some form =>
    obtain ⟨part, rest', hpart, hrest', hread⟩ :=
      readFollowing_cases form.following form.low form.high (form.payload first) hrest
    have hstep : input.readCharacter =
        readFollowing form.following form.low form.high (form.payload first) rest := by
      simp only [readCharacter, hnext, if_neg hsingle, hform]
    have hbytes' : input.bytes = first :: part ++ rest'.bytes := by
      rw [hbytes, hpart, List.cons_append]
    rcases hread with ⟨hlength, hfollow, heq⟩ | ⟨hlength, hlongest, heq⟩
    · have hfits : form.Fits first part := ⟨hform, hlength, hfollow⟩
      exact ⟨first :: part, rest', _, hstep.trans heq, hrest', hbytes',
        hfits.decodesFirst rest'.bytes⟩
    · exact ⟨first :: part, rest', _, hstep.trans heq, hrest', hbytes',
        .broken (hlongest.isMaximalSubpart hsingle hform hlength)⟩

/-! ### All characters -/

/-- Reading until the input is exhausted: each reading is a code point with the bytes that it
consumes. -/
inductive Yields : (input : Input) → (readings : List (List UInt8 × Nat)) → Prop
  | exhausted {input rest : Input}
      (hread : input.readCharacter = (.error .inputExhausted, rest)) : Yields input []
  | character {input rest : Input} {part : List UInt8} {code : Nat}
      {readings : List (List UInt8 × Nat)}
      (hread : input.readCharacter = (.ok code, rest)) (hbytes : input.bytes = part ++ rest.bytes)
      (hrest : Yields rest readings) : Yields input ((part, code) :: readings)

/-- Reading is deterministic. -/
lemma Yields.unique {input : Input} {readings readings' : List (List UInt8 × Nat)}
    (h : input.Yields readings) (h' : input.Yields readings') : readings = readings' := by
  induction h generalizing readings' with
  | exhausted hread =>
    cases h' with
    | exhausted => rfl
    | character hread' =>
      rw [hread, Prod.mk.injEq] at hread'
      exact absurd hread'.1 nofun
  | character hread hbytes _ ih =>
    cases h' with
    | exhausted hread' =>
      rw [hread, Prod.mk.injEq] at hread'
      exact absurd hread'.1 nofun
    | character hread' hbytes' hrest' =>
      rw [hread, Prod.mk.injEq, Except.ok.injEq] at hread'
      obtain ⟨rfl, rfl⟩ := hread'
      rw [hbytes] at hbytes'
      rw [List.append_cancel_right hbytes', ih hrest']

/-- Reading comes to the end of the input, and decodes all of it on the way. -/
lemma exists_yields {input : Input} (h : input.NeverFails) :
    ∃ readings, input.Yields readings ∧ (readings.map Prod.fst).flatten = input.bytes ∧
      Text.Decodes input.bytes (readings.map Prod.snd) := by
  -- on the number of bytes, since each character consumes some
  induction hlength : input.bytes.length using Nat.strongRecOn generalizing input with
  | ind length ih =>
    rcases readCharacter_cases h with
      ⟨hbytes, hread⟩ | ⟨part, rest, code, hread, hrest, hbytes, hfirst⟩
    · rw [hbytes]
      exact ⟨[], .exhausted hread, rfl, .nil⟩
    · have hpart : 0 < part.length := List.length_pos_iff.mpr hfirst.ne_nil
      have hshorter : rest.bytes.length < length := by
        rw [← hlength, hbytes, List.length_append]
        omega
      obtain ⟨readings, hyields, hflatten, hdecodes⟩ := ih _ hshorter hrest rfl
      refine ⟨(part, code) :: readings, .character hread hbytes hyields, ?_, ?_⟩
      · rw [List.map_cons, List.flatten_cons, hflatten, hbytes]
      · rw [hbytes]
        exact .cons hfirst hdecodes

/-- Reading an input whose source does not fail, in whatever chunks its bytes arrive, comes to
the end of it in one way. Every byte is consumed once and in order, and the code points that
are read are those of the lossy decoding of the bytes. They are code points of characters,
and a text is read back from its UTF-8 form. -/
theorem exists_yields_decodes {input : Input} (h : input.NeverFails) :
    ∃ readings, input.Yields readings ∧
      (∀ readings', input.Yields readings' → readings' = readings) ∧
      (readings.map Prod.fst).flatten = input.bytes ∧
      (∀ codes, Text.Decodes input.bytes codes ↔ codes = readings.map Prod.snd) ∧
      (∀ code ∈ readings.map Prod.snd, code.isValidChar) ∧
      ∀ text, input.bytes = Text.bytes text → readings.map Prod.snd = text.map Char.toNat := by
  obtain ⟨readings, hyields, hflatten, hdecodes⟩ := exists_yields h
  refine ⟨readings, hyields, fun _ hyields' => hyields'.unique hyields, hflatten, ?_,
    hdecodes.isValidChar, ?_⟩
  · intro codes
    constructor
    · intro hcodes
      exact hcodes.unique hdecodes
    · rintro rfl
      exact hdecodes
  · intro text htext
    rw [htext] at hdecodes
    exact hdecodes.unique (Text.decodes_bytes text)

/-- Two bytes of a sequence of three arrive apart and are read as one replacement character.
The byte after them is read on its own. -/
theorem exists_yields_decodes_broken :
    NeverFails [.chunk [0xE2], .interruption, .chunk [], .chunk [0x82, 0x21]] ∧
      Yields [.chunk [0xE2], .interruption, .chunk [], .chunk [0x82, 0x21]]
        [([0xE2, 0x82], 0xFFFD), ([0x21], 0x21)] ∧
      Text.Decodes [0xE2, 0x82, 0x21] [0xFFFD, 0x21] := by
  have hinput : NeverFails [.chunk [0xE2], .interruption, .chunk [], .chunk [0x82, 0x21]] := by
    simp [NeverFails]
  obtain ⟨readings, -, hunique, -, hdecodes, -⟩ := exists_yields_decodes hinput
  have hyields : Yields [.chunk [0xE2], .interruption, .chunk [], .chunk [0x82, 0x21]]
      [([0xE2, 0x82], 0xFFFD), ([0x21], 0x21)] :=
    .character rfl rfl (.character rfl rfl (.exhausted rfl))
  refine ⟨hinput, hyields, (hdecodes _).mpr ?_⟩
  rw [← hunique _ hyields]
  rfl

end TapeTower.Input
