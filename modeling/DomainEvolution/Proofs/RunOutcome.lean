import DomainEvolution.Command.Run
import DomainEvolution.Proofs.FileTree
import DomainEvolution.Proofs.ModelText

/-!
# All or nothing

A run writes its whole output to one place, or it leaves everything as it was. Reading, decoding and
compiling come before the first write, so a run that fails in one of them has changed nothing; and a
write that fails changes nothing either. The exit code tells the endings apart.
-/

namespace DomainEvolution.Command

section Input

variable (options : Options) (standardInput : ByteArray) (files : Files)

/-- The run reads a text, from its input file or from standard input. -/
def Reads (text : String) : Prop :=
  ∃ bytes, readInput options standardInput files = .ok bytes ∧ String.fromUTF8? bytes = some text

/-- The text that the run reads is compiled into an output. -/
def Produces (output : String) : Prop :=
  ∃ text, Reads options standardInput files text ∧
    compileText options.plan options.pretty text = .ok output

/-- The text that the run reads is a declaration, which is refused. -/
def Refuses : Prop :=
  ∃ text decl error, Reads options standardInput files text ∧
    Decl.Universe.codec.readText text = .ok decl ∧
    Universe.compile decl options.plan = .error error

end Input

namespace Outcome

/-- Nothing was written. -/
structure Untouched (outcome : Outcome) (files : Files) : Prop where
  files : outcome.files = files
  printed : outcome.standardOutput = ""

/-- The output was written where it belongs and nowhere else. -/
inductive Delivers (options : Options) (files : Files) (output : String) (outcome : Outcome) : Prop
  | printed (hoption : options.output = none) (hprinted : outcome.standardOutput = output)
      (hfiles : outcome.files = files) : Delivers options files output outcome
  | stored {path : String} (hoption : options.output = some path)
      (hprinted : outcome.standardOutput = "")
      (hfiles : files.WrittenAt path output.toUTF8 outcome.files) :
      Delivers options files output outcome

/-- Two runs end in the same way and write the same. What they tell on the way is left open. -/
structure SameEnd (outcome other : Outcome) : Prop where
  exitCode : outcome.exitCode = other.exitCode
  printed : outcome.standardOutput = other.standardOutput
  files : outcome.files = other.files

/-- A run that writes all of its output or nothing, and whose exit code tells which and why. -/
structure AllOrNothing (options : Options) (standardInput : ByteArray) (files : Files)
    (outcome : Outcome) : Prop where
  unread : ∀ fault, readInput options standardInput files = .error fault →
    outcome.Untouched files
  undecoded : ∀ bytes, readInput options standardInput files = .ok bytes →
    String.fromUTF8? bytes = none → outcome.Untouched files
  malformed : ∀ text fault, Reads options standardInput files text →
    Decl.Universe.codec.readText text = .error fault → outcome.Untouched files
  refused : Refuses options standardInput files → outcome.Untouched files
  barred : ∀ path, options.output = some path → files.Barred path → outcome.Untouched files
  delivered : ∀ output, Produces options standardInput files output →
    (∀ path, options.output = some path → ¬ files.Barred path) →
    outcome.Delivers options files output
  inPlace : ∀ path output, options.input = some path → options.output = some path →
    Produces options standardInput files output →
    files.WrittenAt path output.toUTF8 outcome.files
  exitCode_zero : outcome.exitCode = 0 ↔
    ∃ output, Produces options standardInput files output ∧ outcome.Delivers options files output
  exitCode_one : outcome.exitCode = 1 ↔ Refuses options standardInput files
  exitCode_two : outcome.exitCode ≠ 0 → outcome.exitCode ≠ 1 → outcome.exitCode = 2
  planless : ∀ other : Options, other.input = options.input → other.output = options.output →
    other.pretty = options.pretty → (run other standardInput files).SameEnd outcome

end Outcome

/-! ### What a run responds -/

/-- The plan of a compilation does not show in its result. -/
theorem compileText_eq_of_plan (plan other : Plan) (pretty : Bool) (text : String) :
    compileText plan pretty text = compileText other pretty text := by
  have hcompile (decl : Decl.Universe) :
      Universe.compile decl plan = Universe.compile decl other :=
    Compilation.compile_eq_of_verdict plan (Compilation.verdict_compile decl other)
  simp only [compileText, hcompile]

/-- A text is not compiled because it is malformed, or because its declaration is refused. -/
theorem compileText_eq_error_iff {plan : Plan} {pretty : Bool} {text : String} {failure : Failure} :
    compileText plan pretty text = .error failure ↔
      (∃ fault, Decl.Universe.codec.readText text = .error fault ∧ failure = .parse fault) ∨
        ∃ decl error, Decl.Universe.codec.readText text = .ok decl ∧
          Universe.compile decl plan = .error error ∧ failure = .compile error := by
  unfold compileText
  cases Decl.Universe.codec.readText text with
  | error fault =>
    simp [bind, Except.bind, throw, throwThe, MonadExceptOf.throw, eq_comm]
  | ok decl =>
    cases hcompile : Universe.compile decl plan with
    | error error =>
      simp [bind, Except.bind, throw, throwThe, MonadExceptOf.throw, pure, Except.pure, hcompile,
        eq_comm]
    | ok model => simp [bind, Except.bind, pure, Except.pure, hcompile]

section Response

variable {options : Options} {standardInput : ByteArray} {files : Files}

/-- A run reads one text. -/
theorem Reads.unique {text other : String} (h : Reads options standardInput files text)
    (hother : Reads options standardInput files other) : text = other := by
  obtain ⟨bytes, hbytes, htext⟩ := h
  obtain ⟨bytes', hbytes', hother⟩ := hother
  obtain rfl : bytes = bytes' := Except.ok.inj (hbytes.symm.trans hbytes')
  exact Option.some.inj (htext.symm.trans hother)

/-- A text that the input file holds is what the run reads. -/
theorem reads_of_read {path text : String} (hinput : options.input = some path)
    (hread : files.read path = .ok text.toUTF8) : Reads options standardInput files text := by
  refine ⟨text.toUTF8, ?_, ?_⟩
  · simp only [readInput, hinput, hread]
  · rw [String.fromUTF8?, String.toUTF8_eq_toByteArray, dif_pos text.isValidUTF8]
    rfl

/-- The response to a text is its compilation. -/
theorem respond_of_reads {text : String} (h : Reads options standardInput files text) :
    respond options (readInput options standardInput files) =
      compileText options.plan options.pretty text := by
  obtain ⟨bytes, hbytes, htext⟩ := h
  simp only [respond, hbytes, htext]

/-- Without a text, the response is a failure to read it. -/
theorem exists_respond_of_not_reads (h : ∀ text, ¬ Reads options standardInput files text) :
    ∃ fault, respond options (readInput options standardInput files) =
      .error (inputFailure options fault) := by
  unfold respond
  cases hinput : readInput options standardInput files with
  | error fault => exact ⟨fault, rfl⟩
  | ok bytes =>
    cases htext : String.fromUTF8? bytes with
    | none => exact ⟨.notUtf8, by simp only [htext]⟩
    | some text => exact absurd ⟨bytes, hinput, htext⟩ (h text)

/-- The output of a run is compiled from the text that it reads. -/
theorem respond_eq_ok_iff {output : String} :
    respond options (readInput options standardInput files) = .ok output ↔
      Produces options standardInput files output := by
  constructor
  · intro hok
    by_cases hreads : ∃ text, Reads options standardInput files text
    · obtain ⟨text, htext⟩ := hreads
      exact ⟨text, htext, (respond_of_reads htext).symm.trans hok⟩
    · obtain ⟨fault, hfault⟩ := exists_respond_of_not_reads (not_exists.mp hreads)
      rw [hfault] at hok
      cases hok
  · rintro ⟨text, htext, hok⟩
    exact (respond_of_reads htext).trans hok

/-- A failure to read has exit code two. -/
theorem exitCode_inputFailure (fault : FileFault) : (inputFailure options fault).exitCode = 2 := by
  unfold inputFailure
  cases options.input <;> rfl

/-- A run fails with exit code one because a declaration is refused, and with exit code two for any
other reason. -/
theorem exitCode_of_respond_eq_error {failure : Failure}
    (h : respond options (readInput options standardInput files) = .error failure) :
    failure.exitCode = 1 ∧ Refuses options standardInput files ∨
      failure.exitCode = 2 ∧ ¬ Refuses options standardInput files := by
  by_cases hreads : ∃ text, Reads options standardInput files text
  · obtain ⟨text, htext⟩ := hreads
    rw [respond_of_reads htext, compileText_eq_error_iff] at h
    rcases h with ⟨fault, hread, rfl⟩ | ⟨decl, error, hread, hcompile, rfl⟩
    · refine Or.inr ⟨rfl, ?_⟩
      rintro ⟨other, decl, _, hother, hdecl, -⟩
      rw [hother.unique htext, hread] at hdecl
      cases hdecl
    · exact Or.inl ⟨rfl, text, decl, error, htext, hread, hcompile⟩
  · obtain ⟨fault, hfault⟩ := exists_respond_of_not_reads (not_exists.mp hreads)
    rw [hfault] at h
    cases h
    refine Or.inr ⟨exitCode_inputFailure fault, ?_⟩
    rintro ⟨text, _, _, htext, -⟩
    exact hreads ⟨text, htext⟩

/-- A declaration that is refused has no output. -/
theorem Refuses.not_produces (h : Refuses options standardInput files) (output : String) :
    ¬ Produces options standardInput files output := by
  rintro ⟨text, htext, hok⟩
  obtain ⟨other, decl, error, hother, hread, hcompile⟩ := h
  rw [← hother.unique htext,
    compileText_eq_error_iff.mpr (.inr ⟨decl, error, hread, hcompile, rfl⟩)] at hok
  cases hok

/-! ### What a run leaves behind -/

/-- A failed response is the end of the run. -/
theorem run_of_respond_eq_error {failure : Failure}
    (h : respond options (readInput options standardInput files) = .error failure) :
    run options standardInput files = .failed files failure := by
  rw [run, h]

/-- Without an output nothing is written. -/
theorem untouched_of_not_produces (h : ∀ output, ¬ Produces options standardInput files output) :
    (run options standardInput files).Untouched files := by
  cases hresponse : respond options (readInput options standardInput files) with
  | error failure =>
    rw [run_of_respond_eq_error hresponse]
    exact ⟨rfl, rfl⟩
  | ok output => exact absurd (respond_eq_ok_iff.mp hresponse) (h output)

/-- A run with an output that has no file for it prints the output. -/
theorem run_of_produces {output : String} (h : Produces options standardInput files output)
    (hoption : options.output = none) :
    run options standardInput files = ⟨0, output, "", files⟩ := by
  rw [run, respond_eq_ok_iff.mpr h]
  simp only [hoption]

/-- A run whose output can be written to its file writes it there. -/
theorem run_of_write {output path : String} {written : Files}
    (h : Produces options standardInput files output) (hoption : options.output = some path)
    (hok : files.write path output.toUTF8 = .ok written) :
    run options standardInput files = ⟨0, "", "", written⟩ := by
  rw [run, respond_eq_ok_iff.mpr h]
  simp only [hoption, hok]

/-- A run whose output cannot be written fails. -/
theorem run_of_barred {output path : String} (h : Produces options standardInput files output)
    (hoption : options.output = some path) (hbarred : files.Barred path) :
    ∃ fault, run options standardInput files = .failed files (.write path fault) := by
  cases hwrite : files.write path output.toUTF8 with
  | ok written => exact absurd hbarred (Files.exists_write_eq_ok_iff.mp ⟨written, hwrite⟩)
  | error fault =>
    refine ⟨fault, ?_⟩
    rw [run, respond_eq_ok_iff.mpr h]
    simp only [hoption, hwrite, outputFailure]

/-- A run whose output can be written where it belongs delivers it. -/
theorem delivers_of_produces {output : String} (h : Produces options standardInput files output)
    (hbarred : ∀ path, options.output = some path → ¬ files.Barred path) :
    (run options standardInput files).Delivers options files output ∧
      (run options standardInput files).exitCode = 0 := by
  cases hoption : options.output with
  | none =>
    rw [run_of_produces h hoption]
    exact ⟨.printed hoption rfl rfl, rfl⟩
  | some path =>
    obtain ⟨written, hwritten⟩ : ∃ written, files.write path output.toUTF8 = .ok written :=
      Files.exists_write_eq_ok_iff.mpr (hbarred path hoption)
    rw [run_of_write h hoption hwritten]
    exact ⟨.stored hoption rfl (Files.writtenAt_of_write hwritten), rfl⟩

/-- Nothing is delivered to a path at which no file can be written. -/
theorem Outcome.Delivers.not_barred {output path : String} {outcome : Outcome}
    (h : outcome.Delivers options files output) (hoption : options.output = some path)
    (hfiles : outcome.files = files) : ¬ files.Barred path := by
  intro hbarred
  cases h with
  | printed hnone =>
    rw [hnone] at hoption
    cases hoption
  | stored hsome _ hwritten =>
    obtain rfl := Option.some.inj (hsome.symm.trans hoption)
    obtain ⟨target, hreaches, hfound, -⟩ := hwritten.reached
    rw [hfiles, Files.barred_iff.mp hbarred target hreaches] at hfound
    cases hfound

variable (options standardInput files)

/-- How a run ends, and with which exit code. -/
inductive Ends (outcome : Outcome) : Prop
  | delivered {output : String} (hcode : outcome.exitCode = 0)
      (hproduces : Produces options standardInput files output)
      (hdelivers : outcome.Delivers options files output) : Ends outcome
  | refused (hcode : outcome.exitCode = 1) (hrefuses : Refuses options standardInput files) :
      Ends outcome
  | failed (hcode : outcome.exitCode = 2) (hrefuses : ¬ Refuses options standardInput files)
      (hdelivers : ∀ output, Produces options standardInput files output →
        ¬ outcome.Delivers options files output) : Ends outcome

/-- A run ends in one of three ways. -/
theorem ends_run : Ends options standardInput files (run options standardInput files) := by
  cases hresponse : respond options (readInput options standardInput files) with
  | error failure =>
    have hnone (output : String) : ¬ Produces options standardInput files output := by
      rw [← respond_eq_ok_iff, hresponse]
      intro hok
      cases hok
    rw [run_of_respond_eq_error hresponse]
    rcases exitCode_of_respond_eq_error hresponse with ⟨hone, hrefuses⟩ | ⟨htwo, hrefuses⟩
    · exact .refused hone hrefuses
    · exact .failed htwo hrefuses fun output hproduces => absurd hproduces (hnone output)
  | ok output =>
    have hproduces := respond_eq_ok_iff.mp hresponse
    by_cases hbarred : ∃ path, options.output = some path ∧ files.Barred path
    · obtain ⟨path, hoption, hbarred⟩ := hbarred
      obtain ⟨fault, hrun⟩ := run_of_barred hproduces hoption hbarred
      rw [hrun]
      refine .failed rfl (fun h => h.not_produces output hproduces) fun other _ hdelivers => ?_
      exact hdelivers.not_barred hoption rfl hbarred
    · obtain ⟨hdelivers, hzero⟩ := delivers_of_produces hproduces
        fun path hoption hpath => hbarred ⟨path, hoption, hpath⟩
      exact .delivered hzero hproduces hdelivers

end Response

/-- The input file of a run that has an output can be written over. -/
theorem Produces.not_barred {options : Options} {standardInput : ByteArray} {files : Files}
    {output path : String} (h : Produces options standardInput files output)
    (hoption : options.input = some path) : ¬ files.Barred path := by
  obtain ⟨_, ⟨bytes, hbytes, -⟩, -⟩ := h
  simp only [readInput, hoption] at hbytes
  exact Files.not_barred_of_read hbytes

/-- A run depends neither on its plan nor on how much it is to tell. -/
theorem run_eq_of_same_paths {options other : Options} (hinput : other.input = options.input)
    (houtput : other.output = options.output) (hpretty : other.pretty = options.pretty)
    (standardInput : ByteArray) (files : Files) :
    run other standardInput files = run options standardInput files := by
  have hread : readInput other standardInput files = readInput options standardInput files := by
    simp only [readInput, hinput]
  have hrespond (input : Except FileFault ByteArray) :
      respond other input = respond options input := by
    simp only [respond, inputFailure, hinput, hpretty,
      compileText_eq_of_plan other.plan options.plan]
  simp only [run, hread, hrespond, outputFailure, houtput]

/-- **A run writes all of its output or nothing**, and its exit code tells the endings apart. -/
theorem run_allOrNothing (options : Options) (standardInput : ByteArray) (files : Files) :
    (run options standardInput files).AllOrNothing options standardInput files where
  unread fault hfault := by
    apply untouched_of_not_produces
    rintro output ⟨text, ⟨bytes, hbytes, -⟩, -⟩
    rw [hfault] at hbytes
    cases hbytes
  undecoded bytes hbytes hutf8 := by
    apply untouched_of_not_produces
    rintro output ⟨text, ⟨bytes', hbytes', htext⟩, -⟩
    obtain rfl : bytes = bytes' := Except.ok.inj (hbytes.symm.trans hbytes')
    rw [hutf8] at htext
    cases htext
  malformed text fault htext hfault := by
    apply untouched_of_not_produces
    rintro output ⟨other, hother, hok⟩
    rw [hother.unique htext, compileText_eq_error_iff.mpr (.inl ⟨fault, hfault, rfl⟩)] at hok
    cases hok
  refused hrefuses := untouched_of_not_produces hrefuses.not_produces
  barred path hoption hbarred := by
    by_cases hproduces : ∃ output, Produces options standardInput files output
    · obtain ⟨output, hproduces⟩ := hproduces
      obtain ⟨fault, hrun⟩ := run_of_barred hproduces hoption hbarred
      rw [hrun]
      exact ⟨rfl, rfl⟩
    · exact untouched_of_not_produces (not_exists.mp hproduces)
  delivered output hproduces hbarred := (delivers_of_produces hproduces hbarred).1
  inPlace path output hinput houtput hproduces := by
    have hbarred : ∀ other, options.output = some other → ¬ files.Barred other := by
      intro other hother
      obtain rfl := Option.some.inj (houtput.symm.trans hother)
      exact hproduces.not_barred hinput
    cases (delivers_of_produces hproduces hbarred).1 with
    | printed hnone =>
      rw [hnone] at houtput
      cases houtput
    | stored hsome _ hwritten =>
      obtain rfl := Option.some.inj (hsome.symm.trans houtput)
      exact hwritten
  exitCode_zero := by
    cases ends_run options standardInput files with
    | delivered hcode hproduces hdelivers => exact iff_of_true hcode ⟨_, hproduces, hdelivers⟩
    | refused hcode hrefuses =>
      refine iff_of_false (by omega) ?_
      rintro ⟨output, hproduces, -⟩
      exact hrefuses.not_produces output hproduces
    | failed hcode _ hdelivers =>
      refine iff_of_false (by omega) ?_
      rintro ⟨output, hproduces, hdelivered⟩
      exact hdelivers output hproduces hdelivered
  exitCode_one := by
    cases ends_run options standardInput files with
    | delivered hcode hproduces _ =>
      exact iff_of_false (by omega) fun hrefuses => hrefuses.not_produces _ hproduces
    | refused hcode hrefuses => exact iff_of_true hcode hrefuses
    | failed hcode hrefuses _ => exact iff_of_false (by omega) hrefuses
  exitCode_two hzero hone := by
    cases ends_run options standardInput files with
    | delivered hcode => exact absurd hcode hzero
    | refused hcode => exact absurd hcode hone
    | failed hcode => exact hcode
  planless other hinput houtput hpretty := by
    rw [run_eq_of_same_paths hinput houtput hpretty]
    exact ⟨rfl, rfl, rfl⟩

/-- Options to read a declaration from a file and to write the output over it, under another
spelling of its path. -/
def inPlace : Options := { input := some "./u", output := some "u" }

/-- The text of a declaration. -/
def loansText : String := Decl.Universe.codec.writeText .pretty Decl.loans

/-- A tree whose only file holds that text. -/
def loansFiles : Files := ⟨[(.ofSteps ["u"], .file loansText.toUTF8)]⟩

/-- Both spellings of the path lead to that file. -/
theorem reaches_loansFiles :
    loansFiles.Reaches "u" (.ofSteps ["u"]) ∧ loansFiles.Reaches "./u" (.ofSteps ["u"]) := by
  have hplain : Files.startOf "u" = .workingDirectory := if_neg (by simp)
  have hdotted : Files.startOf "./u" = .workingDirectory := if_neg (by simp)
  rw [Files.Reaches, Files.Reaches, hplain, hdotted, splitOn_slash, splitOn_slash]
  exact ⟨.step rfl .stop, .step rfl (.step rfl .stop)⟩

theorem run_allOrNothing_inPlace :
    ∃ output : String,
      inPlace.input = some "./u" ∧ inPlace.output = some "u" ∧
      Produces inPlace .empty loansFiles output ∧
      (run inPlace .empty loansFiles).exitCode = 0 ∧
      loansFiles.WrittenAt "u" output.toUTF8 (run inPlace .empty loansFiles).files := by
  obtain ⟨model, hmodel⟩ : ∃ model, Universe.compile Decl.loans inPlace.plan = .ok model :=
    ⟨_, rfl⟩
  have hinput : loansFiles.read "./u" = .ok loansText.toUTF8 :=
    Files.read_eq_ok_iff.mpr ⟨.ofSteps ["u"], reaches_loansFiles.2, rfl⟩
  have houtput : loansFiles.read "u" = .ok loansText.toUTF8 :=
    Files.read_eq_ok_iff.mpr ⟨.ofSteps ["u"], reaches_loansFiles.1, rfl⟩
  have hreadText := (Decl.universe_faithful Decl.loans).readText_writeText Json.Layout.blank_pretty
  have hproduces : Produces inPlace .empty loansFiles _ :=
    ⟨loansText, reads_of_read rfl hinput, compileText_eq_ok hreadText hmodel false⟩
  have hall := run_allOrNothing inPlace .empty loansFiles
  have hdelivers := hall.delivered _ hproduces fun path hpath => by
    obtain rfl := Option.some.inj hpath
    exact Files.not_barred_of_read houtput
  refine ⟨_, rfl, rfl, hproduces, hall.exitCode_zero.mpr ⟨_, hproduces, hdelivers⟩, ?_⟩
  cases hdelivers with
  | printed hnone => cases hnone
  | stored hsome _ hwritten =>
    obtain rfl := Option.some.inj hsome
    exact hwritten

end DomainEvolution.Command
