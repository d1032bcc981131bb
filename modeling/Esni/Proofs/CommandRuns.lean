import Esni.Dump.Command
import Esni.Proofs.DumpOutcome
import Esni.Proofs.TextBytes

/-!
# Runs of the dump command

A run has two phases. The first one collects the values of the arguments and of the lines of the
input, and it is all or nothing: one line that is no text, or no value at all, and nothing is
written. The second one goes through the values one after the other. It numbers them, writes a block
for each of them, and counts those that cannot be dumped, but never stops at one. So the block of a
value depends on nothing but the value, its number and the form of the dump.

## Main definitions

- `Command.inputLines` and `Command.found` — the lines that are read, and all values
- `Command.heading` and `Command.framed` — what is written around the dumps and errors
- `Command.Progress`, with `Progress.Step` and `Progress.Run` — the second phase between two values,
  and what one value and what many of them do to it
- `Command.Refused` and `Command.Reports` — the outcomes of a run that ends in the first phase and
  of one that gets through both

## Main statements

- `Command.values_eq_found` and `Command.values_eq_inputNotText` — the outcome of the first phase
- `Command.Progress.step_iff` and `Command.Progress.run_iff` — what the second phase has done after
  one value and after any number of them
- `Command.runOn_standardInput` — the outcome of a run, and what it does not depend on
-/

namespace Esni.Command

/-! ### The first phase -/

/-- The lines that the command reads. -/
def inputLines (options : Options) (data : Bytes) : List Bytes :=
  if options.input = none then [] else readLines data

/-- The values of the arguments, and those of the lines behind them. -/
def found (options : Options) (data : Bytes) : List String :=
  options.values.filterMap txtValue? ++ (inputLines options data).filterMap lineValue?

/-- Whether all lines that the command reads are texts. -/
def Readable (options : Options) (data : Bytes) : Prop :=
  ∀ line ∈ inputLines options data, lineText? line ≠ none

section Loading

variable {options : Options} {data : Bytes}

theorem values_eq_found (h : Readable options data) :
    values options (.contents data) = .ok (found options data) := by
  cases hinput : options.input with
  | none => simp [values, found, inputLines, hinput]
  | some path =>
    have hlines : inputLines options data = readLines data := by simp [inputLines, hinput]
    obtain ⟨text, rfl⟩ := isText_iff_readLines.2 fun line hline =>
      lineText?_ne_none_iff.1 (h line (hlines ▸ hline))
    have htext : String.fromUTF8? (utf8 text).toByteArray = some (String.ofList text) :=
      lineText?_utf8 text
    have hvalues : (lines (String.ofList text)).filterMap txtValue? =
        (readLines (utf8 text)).filterMap lineValue? := by
      rw [filterMap_readLines, lines, String.toList_ofList]
    simp only [values, found, hinput, hlines, inputText, htext, orFault, ← hvalues]
    rfl

theorem values_eq_inputNotText (h : ¬Readable options data) :
    values options (.contents data) = .error .inputNotText := by
  cases hinput : options.input with
  | none => simp [Readable, inputLines, hinput] at h
  | some path =>
    have hlines : inputLines options data = readLines data := by simp [inputLines, hinput]
    have htext : String.fromUTF8? data.toByteArray = none := by
      by_contra hne
      have hall := isText_iff_readLines.1 (lineText?_ne_none_iff.1 hne)
      exact h fun line hline => lineText?_ne_none_iff.2 (hall line (hlines ▸ hline))
    simp only [values, hinput, inputText, htext, orFault]
    rfl

end Loading

/-! ### The second phase -/

/-- The domain that the values belong to, if one is given, and an empty line. -/
def heading : Option String → String
  | none => ""
  | some domain => "Target Domain: " ++ domain ++ "\n\n"

/-- What there is to show for the value with the given number, between two lines of its own. -/
def framed (number : Nat) (shown : String) : String :=
  "----------- ESNI Record " ++ toString number ++ "\n" ++ shown ++ "\n-----------\n"

/-- The second phase between two values. -/
structure Progress where
  output : String
  /-- The number of the next value. -/
  number : Nat
  failed : Nat

/-- The blocks of values, with numbers from the given one on. -/
def blocks [Build] (withHex : Bool) (first : Nat) (values : List String) : List String :=
  (values.zipIdx first).map fun (value, number) => block withHex value number

theorem title_eq (options : Options) : title options = heading options.domain := by
  unfold title heading
  cases options.domain <;> rfl

section Dumping

variable [Build] {withHex : Bool} {progress : Progress} {value shown : String}
  {values : List String}

/-- One value: its dump or its error is written, and whether it can be dumped or not, the next value
follows. -/
inductive Progress.Step (withHex : Bool) (progress : Progress) (value : String) :
    Progress → Prop where
  | dumped {shown : String} (h : dump .standard withHex value = .ok shown) :
    Step withHex progress value
      ⟨progress.output ++ framed progress.number shown, progress.number + 1, progress.failed⟩
  | failed {error : DumpError} (h : dump .standard withHex value = .error (.fault error)) :
    Step withHex progress value
      ⟨progress.output ++ framed progress.number ("ERROR: " ++ ": ".intercalate error.texts),
        progress.number + 1, progress.failed + 1⟩

/-- Values one after the other. -/
inductive Progress.Run (withHex : Bool) : Progress → List String → Progress → Prop where
  | done (progress : Progress) : Run withHex progress [] progress
  | next {progress between last : Progress} {value : String} {values : List String}
    (step : progress.Step withHex value between) (rest : Run withHex between values last) :
    Run withHex progress (value :: values) last

theorem resultText_of_shows (h : Shows withHex value shown) :
    resultText (dump .standard withHex value) = shown := by
  cases h with
  | dumped h =>
    rw [h]
    rfl
  | failed h =>
    rw [h, ← DumpError.chainText_eq]
    rfl

theorem block_of_shows (h : Shows withHex value shown) (number : Nat) :
    block withHex value number = framed number shown := by
  unfold block framed
  rw [resultText_of_shows h]

theorem blocks_cons (first : Nat) (value : String) (values : List String) :
    blocks withHex first (value :: values) =
      block withHex value first :: blocks withHex (first + 1) values := rfl

theorem blocks_append (first : Nat) (front rest : List String) :
    blocks withHex first (front ++ rest) =
      blocks withHex first front ++ blocks withHex (first + front.length) rest := by
  simp [blocks, List.zipIdx_append]

theorem fails_eq_false_iff :
    fails withHex value = false ↔ ∃ shown, dump .standard withHex value = .ok shown := by
  rw [fails]
  cases dump .standard withHex value <;> simp

theorem countP_fails_eq_zero_iff :
    values.countP (fails withHex) = 0 ↔
      ∀ value ∈ values, ∃ shown, dump .standard withHex value = .ok shown := by
  simp only [List.countP_eq_zero, Bool.not_eq_true, fails_eq_false_iff]

/-- One value adds its block, and one to the failures if it cannot be dumped. -/
theorem Progress.step_iff {next : Progress} :
    progress.Step withHex value next ↔
      next = ⟨progress.output ++ block withHex value progress.number, progress.number + 1,
        progress.failed + if fails withHex value then 1 else 0⟩ := by
  constructor
  · intro h
    cases h with
    | dumped h =>
      rw [block_of_shows (.dumped h), fails, h]
      rfl
    | failed h =>
      rw [block_of_shows (.failed h), fails, h]
      rfl
  · rintro rfl
    obtain ⟨shown, hshows⟩ := exists_shows withHex value
    rw [block_of_shows hshows]
    cases hshows with
    | dumped h =>
      rw [fails, h]
      exact .dumped h
    | failed h =>
      rw [fails, h]
      exact .failed h

/-- After any values there is a block for each of them, and the failures among them are counted. -/
theorem Progress.run_iff {last : Progress} :
    Progress.Run withHex progress values last ↔
      last = ⟨progress.output ++ String.join (blocks withHex progress.number values),
        progress.number + values.length, progress.failed + values.countP (fails withHex)⟩ := by
  induction values generalizing progress with
  | nil =>
    have hnone : (⟨progress.output ++ String.join (blocks withHex progress.number []),
        progress.number + 0, progress.failed + 0⟩ : Progress) = progress := by
      simp [blocks, String.join]
    rw [List.length_nil, List.countP_nil, hnone]
    constructor
    · rintro ⟨⟩
      rfl
    · rintro rfl
      exact .done _
  | cons value values ih =>
    have hsum : progress.failed + (if fails withHex value then 1 else 0) +
        values.countP (fails withHex) = progress.failed + (value :: values).countP (fails withHex) := by
      rw [List.countP_cons, Nat.add_assoc, Nat.add_comm (List.countP _ _)]
    rw [blocks_cons, String.join_cons, ← String.append_assoc, List.length_cons, ← hsum,
      Nat.add_comm values.length, ← Nat.add_assoc]
    constructor
    · rintro (_ | ⟨step, rest⟩)
      rw [step_iff] at step
      subst step
      exact ih.1 rest
    · intro hlast
      exact .next (step_iff.2 rfl) (ih.2 hlast)

end Dumping

/-! ### Whole runs -/

/-- The outcome of a run that ends in the first phase: the error, and nothing written. -/
structure Refused (error : CommandError) (outcome : Outcome) : Prop where
  output : outcome.output = ""
  error : outcome.error = some error
  exitStatus : outcome.exitStatus = 1

/-- The outcome of a run through the given values, of which some failed: the second phase has gone
through all of them, and the error counts the failures. -/
structure Reports [Build] (options : Options) (values : List String) (failed : Nat)
    (outcome : Outcome) : Prop where
  run : Progress.Run options.hex ⟨heading options.domain, 0, 0⟩ values
    ⟨outcome.output, values.length, failed⟩
  error : outcome.error = if failed = 0 then none else some (.failures failed values.length)
  errorText : outcome.error.map CommandError.text =
    if failed = 0 then none
    else some
      ("Error: " ++ toString failed ++ " of " ++ toString values.length ++ " records failed")
  exitStatus_eq_zero_iff : outcome.exitStatus = 0 ↔
    ∀ value ∈ values, ∃ shown, dump .standard options.hex value = .ok shown
  exitStatus_le : outcome.exitStatus ≤ 1

/-- Two outcomes that agree in all but the log. -/
structure AgreeButLog (outcome outcome' : Outcome) : Prop where
  output : outcome.output = outcome'.output
  error : outcome.error = outcome'.error
  exitStatus : outcome.exitStatus = outcome'.exitStatus

section Runs

variable [Build] {options : Options} {input : Input} {error : CommandError} {values : List String}

theorem refused_of_values (h : Command.values options input = .error error) :
    Refused error (run options input) := by
  have hrun : run options input = ⟨"", [], some error⟩ := by rw [run, h]
  exact ⟨by rw [hrun], by rw [hrun], by rw [hrun]; rfl⟩

theorem refused_of_no_values (h : Command.values options input = .ok []) :
    Refused .noValue (run options input) := by
  have hrun : run options input = ⟨"", [], some .noValue⟩ := by rw [run, h]
  exact ⟨by rw [hrun], by rw [hrun], by rw [hrun]; rfl⟩

theorem run_of_values (h : Command.values options input = .ok values) (hne : values ≠ []) :
    run options input =
      { output := heading options.domain ++ String.join (blocks options.hex 0 values)
        log := log options values
        error := if values.countP (fails options.hex) = 0 then none
          else some (.failures (values.countP (fails options.hex)) values.length) } := by
  obtain ⟨value, rest, rfl⟩ := List.exists_cons_of_ne_nil hne
  rw [run, h, ← title_eq]
  rfl

theorem reports_of_values (h : Command.values options input = .ok values) (hne : values ≠ []) :
    Reports options values (values.countP (fails options.hex)) (run options input) := by
  rw [run_of_values h hne]
  refine ⟨?_, rfl, ?_, ?_, ?_⟩
  · rw [Progress.run_iff, Nat.zero_add, Nat.zero_add]
  · split <;> rfl
  · rw [← countP_fails_eq_zero_iff, Outcome.exitStatus]
    by_cases hfailed : values.countP (fails options.hex) = 0 <;> simp [hfailed]
  · rw [Outcome.exitStatus]
    split <;> simp

/-- How much is logged makes no difference for anything else. -/
theorem agreeButLog_verbosity (options : Options) (input : Input) (verbosity : Nat) :
    AgreeButLog (run { options with verbosity } input) (run options input) := by
  have hvalues : Command.values { options with verbosity } input = Command.values options input :=
    rfl
  rw [run, run, hvalues]
  rcases Command.values options input with error | values
  · exact ⟨rfl, rfl, rfl⟩
  · cases values with
    | nil => exact ⟨rfl, rfl, rfl⟩
    | cons value rest => exact ⟨rfl, rfl, rfl⟩

/-- The block of a value stands between what is written for the values before it and what is
written for those behind it. -/
theorem output_of_values {before after : List String} {value shown : String}
    (h : Command.values options input = .ok (before ++ value :: after))
    (hshows : Shows options.hex value shown) :
    (run options input).output =
      heading options.domain ++ String.join (blocks options.hex 0 before) ++
        framed before.length shown ++
        String.join (blocks options.hex (before.length + 1) after) := by
  rw [run_of_values h (by simp), blocks_append, blocks_cons, block_of_shows hshows,
    String.join_append, String.join_cons, Nat.zero_add, String.append_assoc, String.append_assoc]

/-- Without an input, what stands on the standard input makes no difference. -/
theorem runOn_eq_run {files : FileSystem} {data : Bytes}
    (hinput : options.input = none ∨ options.input = some "-") :
    runOn files data options = run options (.contents data) := by
  rcases hinput with hnone | hhyphen
  · have hvalues : Command.values options (.contents []) =
        Command.values options (.contents data) := by simp [Command.values, hnone]
    rw [runOn_of_no_input hnone, run, run, hvalues]
  · exact runOn_of_hyphen hhyphen

/-- **The outcome of a run without an input or on the standard input.** If a line of the input is no
text, or if there is no value, nothing is written. Otherwise the domain and a block for each value
are written in order, also behind values that cannot be dumped, and the exit status is zero
exactly if all of them can be dumped. How much is logged does not matter. In any two runs with the
same form of dumps, a block depends only on its number and its value, and what stands in front of
it and behind it only on the values there. -/
theorem runOn_standardInput {files : FileSystem} {data : Bytes} {options : Options}
    (hinput : options.input = none ∨ options.input = some "-") :
    ((∃ line ∈ inputLines options data, lineText? line = none) →
      Refused .inputNotText (runOn files data options)) ∧
    (Readable options data → found options data = [] →
      Refused .noValue (runOn files data options)) ∧
    (Readable options data → found options data ≠ [] →
      ∃ failed, Reports options (found options data) failed (runOn files data options)) ∧
    (∀ verbosity,
      AgreeButLog (runOn files data { options with verbosity }) (runOn files data options)) ∧
    ∀ (files' : FileSystem) (data' : Bytes) (options' : Options),
      (options'.input = none ∨ options'.input = some "-") → options'.hex = options.hex →
      Readable options data → Readable options' data' →
      ∀ {before before' after after' : List String} {value value' : String},
        found options data = before ++ value :: after →
        found options' data' = before' ++ value' :: after' → before.length = before'.length →
        ∃ front front' shown shown' back back' : String,
          Shows options.hex value shown ∧ Shows options.hex value' shown' ∧
          (runOn files data options).output =
            heading options.domain ++ front ++ framed before.length shown ++ back ∧
          (runOn files' data' options').output =
            heading options'.domain ++ front' ++ framed before.length shown' ++ back' ∧
          (before = before' → front = front') ∧ (value = value' → shown = shown') ∧
          (after = after' → back = back') := by
  refine ⟨?_, ?_, ?_, ?_, ?_⟩
  · rintro ⟨line, hline, hnone⟩
    rw [runOn_eq_run hinput]
    exact refused_of_values (values_eq_inputNotText fun h => h line hline hnone)
  · intro h hnil
    rw [runOn_eq_run hinput]
    exact refused_of_no_values ((values_eq_found h).trans (congrArg _ hnil))
  · intro h hne
    rw [runOn_eq_run hinput]
    exact ⟨_, reports_of_values (values_eq_found h) hne⟩
  · intro verbosity
    have hother : runOn files data { options with verbosity } =
        run { options with verbosity } (.contents data) := runOn_eq_run hinput
    rw [hother, runOn_eq_run hinput]
    exact agreeButLog_verbosity options _ verbosity
  · intro files' data' options' hinput' hhex hreadable hreadable' before before' after after' value
      value' hfound hfound' hlength
    have hvalues := (values_eq_found hreadable).trans (congrArg _ hfound)
    have hvalues' := (values_eq_found hreadable').trans (congrArg _ hfound')
    obtain ⟨shown, hshows⟩ := exists_shows options.hex value
    obtain ⟨shown', hshows'⟩ := exists_shows options.hex value'
    have houtput := output_of_values hvalues hshows
    have houtput' := output_of_values hvalues' (hhex ▸ hshows')
    rw [← runOn_eq_run hinput] at houtput
    rw [← runOn_eq_run hinput', hhex, ← hlength] at houtput'
    -- The runs have only the number and the form of the dump in common, so each is cut by itself.
    refine ⟨_, _, shown, shown', _, _, hshows, hshows', houtput, houtput', ?_, ?_, ?_⟩
    · rintro rfl
      rfl
    · rintro rfl
      exact (resultText_of_shows hshows).symm.trans (resultText_of_shows hshows')
    · rintro rfl
      rfl

end Runs

/-- Two values of a domain as arguments, an empty one and a faulty one, and one on the standard
input that is printed in two parts and is too short for a record. -/
theorem runOn_standardInput_failures :
    let options : Options :=
      { values := ["\"\"", "!!"], input := some "-", domain := some "example.com" }
    let outcome := runOn ⟨[], []⟩ (utf8 "\"AA\" \"==\"\r\n\n".toList) options
    Reports options ["!!", "AA=="] 2 outcome ∧ outcome.error = some (.failures 2 2) ∧
      outcome.exitStatus = 1 ∧ outcome.output =
        "Target Domain: example.com\n\n" ++
        "----------- ESNI Record 0\n" ++
        "ERROR: failed to decode base64 record data: Invalid symbol 33, offset 0.\n" ++
        "-----------\n" ++
        "----------- ESNI Record 1\n" ++
        "ERROR: failed to decode esni keys: unexpected end of data in header\n" ++
        "-----------\n" := by
  intro options outcome
  have hlines : inputLines options (utf8 "\"AA\" \"==\"\r\n\n".toList) =
      [utf8 "\"AA\" \"==\"".toList, utf8 []] := by decide
  have hfound : found options (utf8 "\"AA\" \"==\"\r\n\n".toList) = ["!!", "AA=="] := by
    rw [found, hlines]
    decide
  have hreadable : Readable options (utf8 "\"AA\" \"==\"\r\n\n".toList) := by
    intro line hline
    rw [hlines, List.mem_cons, List.mem_singleton] at hline
    rcases hline with rfl | rfl
    · exact lineText?_ne_none_iff.2 ⟨_, rfl⟩
    · exact lineText?_ne_none_iff.2 ⟨_, rfl⟩
  have hreports : ∃ failed, Reports options (found options _) failed outcome :=
    (runOn_standardInput (.inr rfl)).2.2.1 hreadable (by rw [hfound]; simp)
  rw [hfound] at hreports
  obtain ⟨failed, hreports⟩ := hreports
  have hsymbol : dump .standard false "!!" = .error (.fault (.base64 (.invalidSymbol 33 0))) := rfl
  have hheader : dump .standard false "AA==" =
      .error (.fault (.record (.unexpectedEnd .header))) := rfl
  -- Two steps go through the values, so the output is theirs.
  have hsteps : Progress.Run options.hex ⟨heading options.domain, 0, 0⟩ ["!!", "AA=="] _ :=
    .next (.failed hsymbol) (.next (.failed hheader) (.done _))
  have hend := (Progress.run_iff.1 hreports.run).trans (Progress.run_iff.1 hsteps).symm
  obtain ⟨houtput, _, rfl⟩ := Progress.mk.inj hend
  have herror : outcome.error = some (.failures 2 2) := by
    rw [hreports.error]
    rfl
  refine ⟨hreports, herror, ?_, ?_⟩
  · rw [Outcome.exitStatus, herror]
    rfl
  · rw [houtput]
    decide +kernel

end Esni.Command
