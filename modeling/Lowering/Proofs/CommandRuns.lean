import Lowering.CommandLine
import Lowering.Proofs.LoweredNesting
import Lowering.Proofs.Reentry

/-!
# Runs of the command line

Runs can be chained: the JSON that one run prints can be given to another one, which then prints
what a single run up to the later of the two stages prints. A run with valid arguments and a
readable input fails only on an input that holds no program, with exit code 1, and then prints
nothing. Main statement: `runs_compose`.
-/

namespace Lowering.CommandLine

open Json

/-- A run with arguments that are understood and an input that can be read, given what the arguments
ask for and the content of the input. -/
structure ValidRun (o : Options) (content : ByteArray) where
  arguments : List String
  contentOf : Source → Option ByteArray
  parse_eq : parse arguments = some o
  contentOf_eq : contentOf o.source = some content

/-- How a run ends. -/
def ValidRun.outcome {o : Options} {content : ByteArray} (r : ValidRun o content) :
    Except Failure String :=
  run r.arguments r.contentOf

/-- A valid run does what its options ask for with the content of its source. -/
theorem ValidRun.outcome_eq {o : Options} {content : ByteArray} (r : ValidRun o content) :
    r.outcome = o.execute (some content) := by
  rw [outcome, run, r.parse_eq, ← r.contentOf_eq]

/-- The format that is asked for. -/
def Options.chosenFormat (o : Options) : Format :=
  o.format.getD .json

/-- The text of a program in the format that is asked for. -/
def Options.present (o : Options) (p : Program UInt32) : String :=
  match o.chosenFormat with
  | .json => p.encode o.layout ++ "\n"
  | .text => p.render

/-- The bytes are a text that holds a program. -/
def Holds (content : ByteArray) (p : Program UInt32) : Prop :=
  ∃ text, String.fromUTF8? content = some text ∧ Program.decode text = .ok p

namespace Options

variable {o : Options} {content : ByteArray}

/-- On what holds a program, the lowered program is printed in the format asked for. -/
theorem execute_of_holds {p : Program UInt32} (h : Holds content p) :
    o.execute (some content) = .ok (o.present (p.lowerUpTo o.last)) := by
  obtain ⟨text, htext, hdecode⟩ := h
  rw [execute, Option.bind_some, htext]
  dsimp only
  rw [hdecode, present, chosenFormat]
  cases o.format.getD .json with
  | json => rfl
  | text => rfl

/-- On anything else the run fails with exit code 1. -/
theorem execute_of_not_holds (h : ∀ p, ¬ Holds content p) :
    ∃ failure, o.execute (some content) = .error failure ∧ failure.exitCode = 1 := by
  rw [execute, Option.bind_some]
  cases htext : String.fromUTF8? content with
  | none => exact ⟨_, rfl, rfl⟩
  | some text =>
      dsimp only
      cases hdecode : (Program.decode text : Except Fault (Program UInt32)) with
      | error fault => exact ⟨_, rfl, rfl⟩
      | ok p => exact absurd ⟨text, htext, hdecode⟩ (h p)

end Options

namespace ValidRun

variable {o : Options} {content : ByteArray}

/-- A valid run on what holds a program succeeds and prints the lowered program. -/
theorem outcome_of_holds (r : ValidRun o content) {p : Program UInt32} (h : Holds content p) :
    exitCode r.outcome = 0 ∧ printed r.outcome = o.present (p.lowerUpTo o.last) := by
  rw [r.outcome_eq, Options.execute_of_holds h]
  exact ⟨rfl, rfl⟩

/-- A valid run on anything else prints nothing and fails with exit code 1. -/
theorem outcome_of_not_holds (r : ValidRun o content) (h : ∀ p, ¬ Holds content p) :
    exitCode r.outcome = 1 ∧ printed r.outcome = "" := by
  obtain ⟨failure, hexecute, hcode⟩ := Options.execute_of_not_holds (o := o) h
  rw [r.outcome_eq, hexecute]
  exact ⟨hcode, rfl⟩

/-- A run succeeds on what holds a program, and on nothing else. -/
theorem exitCode_eq_zero_iff (r : ValidRun o content) :
    exitCode r.outcome = 0 ↔ ∃ p, Holds content p := by
  constructor
  · intro hcode
    by_contra hnone
    have hfailed := (r.outcome_of_not_holds (not_exists.mp hnone)).1
    rw [hcode] at hfailed
    exact absurd hfailed (by decide)
  · rintro ⟨p, hp⟩
    exact (r.outcome_of_holds hp).1

end ValidRun

/-! ## Reading what was printed -/

/-- The bytes of a text are read as the text. -/
theorem fromUTF8?_toUTF8 (text : String) : String.fromUTF8? text.toUTF8 = some text := by
  simp only [String.fromUTF8?, String.toUTF8_eq_toByteArray, dif_pos text.isValidUTF8]
  rfl

/-- The bytes of a text hold the program that the text is read as. -/
theorem holds_toUTF8 {text : String} {p : Program UInt32} :
    Holds text.toUTF8 p ↔ Program.decode text = .ok p := by
  rw [Holds, fromUTF8?_toUTF8]
  constructor
  · rintro ⟨_, ⟨⟩, hdecode⟩
    exact hdecode
  · exact fun hdecode => ⟨text, rfl, hdecode⟩

/-- The line break after a JSON text opens no bracket. -/
theorem openBrackets_present {o : Options} (hformat : o.chosenFormat = .json)
    (p : Program UInt32) : openBrackets (o.present p) = p.toDatum.nesting := by
  have hopens := (p.toDatum_fits infosFit_offset).opens_write o.layout 0 0 ['\n']
  rw [Options.present, hformat]
  dsimp only
  rw [openBrackets, String.toList_append, Program.encode, Datum.toText, String.toList_ofList]
  show mostOpen .outside 0 (p.toDatum.write o.layout 0 ++ ['\n']) = _
  rw [hopens]
  show max (0 + p.toDatum.nesting) 0 = _
  omega

/-- A program printed as JSON is read back exactly if its text stays within the nesting limit. -/
theorem decode_present {o : Options} (hformat : o.chosenFormat = .json) (p : Program UInt32) :
    Program.decode (o.present p) =
      if openBrackets (o.present p) ≤ 127 then .ok p else .error .malformed := by
  have hbreak : ∀ c ∈ "\n".toList, isBlank c = true := by simp [isBlank]
  have hopen : openBrackets (p.encode o.layout) = p.toDatum.nesting :=
    openBrackets_toText (p.toDatum_fits infosFit_offset) o.layout
  have hdecode := p.decode_encode_append infosFit_offset o.layout hbreak
  rw [hopen, ← openBrackets_present hformat] at hdecode
  rw [← nestingLimit, ← hdecode, Options.present, hformat]

/-- Runs can be chained. If a run that prints JSON succeeds and what it prints has at most 127
brackets open at once, a run on that output succeeds and prints what a run on the first input prints
in the same format, up to the later of their last stages; with more brackets open it fails. Any run
with valid arguments and a readable input has exit code 0 if the input is a text that holds a
program, and otherwise exit code 1 and no output. -/
theorem runs_compose :
    (∀ {o₁ o₂ o : Options} {input : ByteArray} (first : ValidRun o₁ input)
      (second : ValidRun o₂ (printed first.outcome).toUTF8) (direct : ValidRun o input),
      o₁.chosenFormat = .json → exitCode first.outcome = 0 →
      o.last = max o₁.last o₂.last → o.chosenFormat = o₂.chosenFormat → o.layout = o₂.layout →
        (openBrackets (printed first.outcome) ≤ 127 →
          exitCode second.outcome = 0 ∧ exitCode direct.outcome = 0 ∧
            printed second.outcome = printed direct.outcome) ∧
        (127 < openBrackets (printed first.outcome) → exitCode second.outcome = 1)) ∧
    (∀ {o : Options} {content : ByteArray} (r : ValidRun o content),
      (exitCode r.outcome = 0 ↔ ∃ p, Holds content p) ∧
      (exitCode r.outcome ≠ 0 → exitCode r.outcome = 1 ∧ printed r.outcome = "")) := by
  constructor
  · intro o₁ o₂ o input first second direct hjson hcode hlast hformat hlayout
    obtain ⟨p, hp⟩ := first.exitCode_eq_zero_iff.mp hcode
    have hprinted := (first.outcome_of_holds hp).2
    have hread := decode_present hjson (p.lowerUpTo o₁.last)
    rw [← hprinted] at hread
    constructor
    · intro hwithin
      rw [if_pos hwithin] at hread
      obtain ⟨hcode₂, hprinted₂⟩ := second.outcome_of_holds (holds_toUTF8.mpr hread)
      obtain ⟨hcode', hprinted'⟩ := direct.outcome_of_holds hp
      have hlower : (p.lowerUpTo o₁.last).lowerUpTo o₂.last = p.lowerUpTo o.last := by
        rw [hlast]
        rcases le_total o₁.last o₂.last with h | h
        · rw [max_eq_right h, p.lowerUpTo_lowerUpTo_of_le h]
        · rw [max_eq_left h, p.lowerUpTo_of_ge h]
      refine ⟨hcode₂, hcode', ?_⟩
      rw [hprinted₂, hprinted', hlower, Options.present, Options.present, hformat, hlayout]
    · intro hdeep
      rw [if_neg (Nat.not_le.mpr hdeep)] at hread
      refine (second.outcome_of_not_holds fun q hq => ?_).1
      rw [holds_toUTF8, hread] at hq
      cases hq
  · intro o content r
    refine ⟨r.exitCode_eq_zero_iff, fun hcode => ?_⟩
    have hnone := mt r.exitCode_eq_zero_iff.mpr hcode
    exact r.outcome_of_not_holds (not_exists.mp hnone)

/-- A run on the bytes of a text, from whatever source. -/
def ValidRun.onText {o : Options} {arguments : List String} (h : parse arguments = some o)
    (text : String) : ValidRun o text.toUTF8 :=
  ⟨arguments, fun _ => some text.toUTF8, h, rfl⟩

/-- A call of a function that a property of the variable `xs` holds. -/
def propertyCall : Program UInt32 :=
  ⟨[.expr (.call 7 (.member 5 (.variable 3 "xs") "first") [.number 9 "1"])]⟩

/-- The JSON text of a program that is nested little enough holds the program. -/
theorem holds_encode {p : Program UInt32} (h : Headroom.none.stmts p.statements + 2 ≤ 127) :
    Holds (p.encode .compact).toUTF8 p := by
  rw [holds_toUTF8, Program.decode_encode_of_infosFit infosFit_offset, p.openBrackets_encode]
  exact if_pos h

/-- Both cases occur: two runs after each other agree with one, and a lowered chain of member
accesses is nested too deeply to be read again. -/
theorem runs_compose_examples :
    (let input := (propertyCall.encode .compact).toUTF8
     let first := run ["lower", "--through", "member-access", "--pretty"] fun _ => some input
     let second := run ["lower", "--format=text"] fun _ => some (printed first).toUTF8
     let direct := run ["lower", "--format", "text"] fun _ => some input
     exitCode first = 0 ∧ openBrackets (printed first) ≤ 127 ∧ exitCode second = 0 ∧
       exitCode direct = 0 ∧ printed second = printed direct) ∧
    (let input := ((⟨[.expr (memberChain 31)]⟩ : Program UInt32).encode .compact).toUTF8
     let first := run ["lower"] fun _ => some input
     let second := run ["lower", "--through=globals"] fun _ => some (printed first).toUTF8
     exitCode first = 0 ∧ 127 < openBrackets (printed first) ∧ exitCode second = 1) := by
  constructor
  · have hparse : parse ["lower", "--through", "member-access", "--pretty"] =
        some {through := some .memberAccess, pretty := true} := by decide
    have hparse₂ : parse ["lower", "--format=text"] = some {format := some .text} := by decide
    have hparse' : parse ["lower", "--format", "text"] = some {format := some .text} := by decide
    let first := ValidRun.onText hparse (propertyCall.encode .compact)
    let second := ValidRun.onText hparse₂ (printed first.outcome)
    let direct := ValidRun.onText hparse' (propertyCall.encode .compact)
    obtain ⟨hcode, hprinted⟩ := first.outcome_of_holds (holds_encode (by decide))
    have hopen : openBrackets (printed first.outcome) ≤ 127 := by
      rw [hprinted, openBrackets_present rfl]
      decide
    exact ⟨hcode, hopen, (runs_compose.1 first second direct rfl hcode (by decide) rfl rfl).1 hopen⟩
  · have hparse : parse ["lower"] = some {} := by decide
    have hparse₂ : parse ["lower", "--through=globals"] = some {through := some .globals} := by
      decide
    let first := ValidRun.onText hparse
      ((⟨[.expr (memberChain 31)]⟩ : Program UInt32).encode .compact)
    let second := ValidRun.onText hparse₂ (printed first.outcome)
    obtain ⟨hcode, hprinted⟩ := first.outcome_of_holds (holds_encode (by decide +kernel))
    have hopen : 127 < openBrackets (printed first.outcome) := by
      rw [hprinted, openBrackets_present rfl]
      decide +kernel
    exact ⟨hcode, hopen, (runs_compose.1 first second first rfl hcode (by decide) rfl rfl).2 hopen⟩

end Lowering.CommandLine
