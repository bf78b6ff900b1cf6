import Brainfuck.Proofs.CommandLine.Options
import Brainfuck.Proofs.CommandLine.Requests
import Brainfuck.Proofs.Source.File

/-! # The status of a command line

Before a program is run its settings have to be loaded. What is wrong with them is told on one line, unless the
settings file is no text or not well formed, or its name is no path, or what is to be told has a number in it
that is too long to be written: then the command line ends without a status, as it does if there is no room for
the tape or the program cannot be read. A run that is met all its requests ends with a status, which tells
whether there was a loop without an end. -/
namespace Brainfuck

namespace Session

variable {s : Session} {o : Options} {settings : Settings} {text : Array UInt8} {console : List Char}

/-- A session at the start of a program: the machine stands before the text as soon as it is opened, and
there is a stepper if one was asked for. -/
structure Starts (session : Session) (o : Options) (s : Settings) (text : Array UInt8)
    (console : List Char) : Prop where
  machine_eq : ∃ source opened,
    session.machine = { Machine.start s source console none with lineInput := o.step } ∧
      source.opened = .ok opened ∧ (Edition.ofSettings s text).Holds 0 opened
  stepper_eq : session.stepper = if o.step then some {} else none

lemma Starts.sound (h : s.Starts o settings text console)
    (hmax : settings.cellMax ≤ Machine.lastCodePoint) :
    ∃ opened, s.machine.source.opened = .ok opened ∧ (s.machine.withSource opened).Sound [] := by
  obtain ⟨source, opened, hmachine, hopened, hholds⟩ := h.machine_eq
  rw [hmachine]
  refine ⟨opened, hopened, ⟨⟨.ofSettings settings text, {}, ⟨hholds, rfl, rfl, by simp⟩, ?_⟩, hmax, ?_⟩⟩
  · constructor <;> simp [Machine.start, Machine.withSource]
  · simp [Machine.start, Machine.withSource, Event.Unclosed]

/-- A program whose cells are code points runs in order, alone or under a stepper. -/
theorem Starts.orderly (h : s.Starts o settings text console)
    (hmax : settings.cellMax ≤ Machine.lastCodePoint) (n : Nat) : (s.outcome n).Orderly := by
  obtain ⟨opened, hopened, hsound⟩ := h.sound hmax
  unfold outcome
  rw [h.stepper_eq]
  cases o.step with
  | false => exact hsound.run hopened n
  | true =>
    exact Watched.orderly_outcome (w := ⟨s.machine, {}, none⟩) hopened Stepper.writesCounts_default hsound n

/-- Such a run is at fault exactly if a request is not met. -/
theorem Starts.fault_iff (h : s.Starts o settings text console)
    (hmax : settings.cellMax ≤ Machine.lastCodePoint) (n : Nat) (f : Fault) :
    (s.run n).2 = .error f ↔ s.failure? n = some f := by
  refine ⟨fun hrun => ?_, run_of_failure⟩
  cases hfailure : s.failure? n with
  | none =>
    rw [run_status hfailure, (h.orderly hmax n).result_eq] at hrun
    cases hrun
  | some f' =>
    rw [run_of_failure hfailure] at hrun
    rw [Except.error.inj hrun]

/-- Cells that are no larger than the last character before the surrogates are never asked to write half of a
pair. -/
lemma Starts.failure?_eq_none (h : s.Starts o settings text console) (hmax : settings.cellMax < 0xD800)
    (hdecodable : s.undecodable = false) (n : Nat) : s.failure? n = none := by
  rw [failure?_eq_none_iff hdecodable]
  intro code hcode
  have hle := s.le_of_written n code hcode
  obtain ⟨source, opened, hmachine, -⟩ := h.machine_eq
  rw [hmachine] at hle
  exact .inl (Nat.lt_of_le_of_lt hle hmax)

end Session

namespace Settings

variable {ε : Type} {safeLoad : List Char → Except ε Value} {name : String} {file : FileState}
  {environment : List (String × String)} {explicit : Layer}

/-- A settings file that gives no value to look at: its name is no path, or its content is no text, or the
text is not well formed. -/
inductive Illegible (safeLoad : List Char → Except ε Value) : FileState → Prop
  | name : Illegible safeLoad .notAPath
  | encoding {content : ByteArray} (h : String.fromUTF8? content = none) :
    Illegible safeLoad (.file content)
  | form {content : ByteArray} {text : String} {e : ε} (h : String.fromUTF8? content = some text)
    (he : safeLoad (unifyLines text.toList) = .error e) : Illegible safeLoad (.file content)

/-- A problem of a file that gives no value to look at. -/
inductive LoadError.NoValue : LoadError ε → Prop
  | name : NoValue (.unreadable .nulInName)
  | encoding : NoValue .undecodable
  | form (e : ε) : NoValue (.malformed e)

lemma not_noValue_of_mapError {α : Type} {r : Except Error α} {e : LoadError ε}
    (h : r.mapError .refused = .error e) : ¬ e.NoValue := by
  cases r with
  | ok a => cases h
  | error e' =>
    obtain rfl : LoadError.refused e' = e := Except.error.inj h
    rintro ⟨⟩

lemma layerOfFile_noValue_iff (name : String) (file : FileState) :
    (∃ e, layerOfFile safeLoad name file = .error e ∧ e.NoValue) ↔ Illegible safeLoad file := by
  constructor
  · rintro ⟨e, hload, hvalue⟩
    cases file with
    | missing | directory | belowFile | tooLong | denied =>
      simp only [layerOfFile, FileState.read, Except.error.injEq] at hload
      subst hload
      cases hvalue
    | notAPath => exact .name
    | file content =>
      simp only [layerOfFile, FileState.read, layerOfContent] at hload
      split at hload
      next hcontent => exact .encoding hcontent
      next text hcontent =>
        split at hload
        next hform => exact .form hcontent hform
        next => exact absurd hvalue (not_noValue_of_mapError hload)
  · rintro (_ | hcontent | @⟨_, _, e, hcontent, hform⟩)
    · exact ⟨_, rfl, .name⟩
    · exact ⟨.undecodable, by simp only [layerOfFile, FileState.read, layerOfContent, hcontent], .encoding⟩
    · refine ⟨.malformed e, ?_, .form e⟩
      simp only [layerOfFile, FileState.read, layerOfContent, hcontent, hform]

/-- Loading settings finds no value to look at exactly if a file is named that is illegible. -/
theorem load_noValue_iff :
    (∃ e, load safeLoad name file environment explicit = .error e ∧ e.NoValue) ↔
      name ≠ "" ∧ Illegible safeLoad file := by
  have hload : load safeLoad name file environment explicit =
      (if name.isEmpty then .ok [] else layerOfFile safeLoad name file).bind
        fun layer => (layered layer environment explicit).mapError .refused := by
    unfold load
    split <;> rfl
  rw [hload, ← layerOfFile_noValue_iff name file]
  by_cases hname : name = ""
  · simp only [hname, ne_eq, not_true_eq_false, false_and, iff_false]
    rintro ⟨e, he, hvalue⟩
    exact not_noValue_of_mapError he hvalue
  · have hempty : name.isEmpty = false := by simpa using hname
    rw [hempty, if_neg Bool.false_ne_true, and_iff_right hname]
    rcases layerOfFile safeLoad name file with e | layer
    · simp [Except.bind]
    · refine iff_of_false ?_ (by simp)
      rintro ⟨e, he, hvalue⟩
      exact not_noValue_of_mapError he hvalue

end Settings

namespace CommandLine

open Settings

variable {ε : Type} {host : Host ε} {arguments : List String} {o : Options} {content : Option ByteArray}
  {s : Settings} {e : LoadError ε}

/-- A problem of the settings is not told exactly if there was no value to look at, or if it has a number in it
that is too long to be written. -/
lemma settingsProblem_eq_error_iff :
    (∃ failure, settingsProblem e = .error failure) ↔
      e.NoValue ∨ ∃ refusal, e = .refused refusal ∧ refusal.hasLongNumber = true := by
  constructor
  · rintro ⟨failure, h⟩
    unfold settingsProblem at h
    split at h
    next refusal =>
      refine .inr ⟨refusal, rfl, ?_⟩
      by_contra hshort
      simp [Error.message, hshort, Except.mapError] at h
    next => exact .inl .name
    next => cases h
    next => exact .inl .encoding
    next e' => exact .inl (.form e')
  · rintro (hvalue | ⟨refusal, rfl, hlong⟩)
    · cases hvalue <;> exact ⟨_, rfl⟩
    · exact ⟨.fault .tooManyDigits, by simp [settingsProblem, Error.message, hlong, Except.mapError]⟩

/-- A command line that names an existing program of the standard dialect. A program without content must not be
read. -/
structure Names (host : Host ε) (arguments : List String) (o : Options) (content : Option ByteArray) :
    Prop where
  parse_eq : Options.parse arguments = .ok (.options o [])
  file_eq : host.files (o.program.getD "") = content.elim .denied .file
  dialect_eq : Dialect.ofPath? (o.program.getD "") = some .standard

/-- What is told about an option that does not apply. -/
def notice (o : Options) : Printed :=
  if o.useful then Printed.line "warn: --useful flag is not applicable to standard brainfuck." else {}

/-- The settings that a command line asks for. -/
def Host.settings (host : Host ε) (o : Options) : Except (LoadError ε) Settings :=
  Settings.load host.safeLoad o.config (host.files o.config) host.environment o.layer

/-- A reader of the program. -/
def programReader (name : String) (content : Option ByteArray) : Reader :=
  content.elim (.ofLocked name) fun content => .ofFile name (some content.data)

/-- What a command line comes to depends on whether its settings can be loaded. -/
lemma Names.prepare_eq (h : Names host arguments o content) :
    prepare host arguments =
      match host.settings o with
      | .error e =>
        match settingsProblem e with
        | .ok reason => (notice o ++ fatal reason, .ended .fatal)
        | .error failure => (notice o, .failed failure)
      | .ok s =>
        match start host o s (programReader (o.program.getD "") content) with
        | (printed, .ok session) => (notice o ++ printed, .ready session)
        | (printed, .error fault) => (notice o ++ printed, .failed (.fault fault)) := by
  have hreader : (host.files (o.program.getD "")).reader? (o.program.getD "") =
      some (programReader (o.program.getD "") content) := by
    rw [h.file_eq]
    cases content <;> rfl
  simp only [prepare, h.parse_eq, hreader, nameProblem?, h.dialect_eq, notice]
  rfl

/-- Where there is room for the tape, a program that can be read is ready to run. -/
lemma start_readable (host : Host ε) (o : Options) (s : Settings) (name : String) (content : ByteArray)
    (hroom : s.tapeLength ≤ host.room) : ∃ printed session,
    start host o s (programReader name (some content)) = (printed, .ok session) ∧
      session.undecodable = host.undecodable ∧ session.Starts o s content.data host.console := by
  obtain ⟨source, opened, hsource, hopened, hholds⟩ := Edition.ofFile_holds s name content.data
  have hloaded : Source.loaded s (programReader name (some content)) = _ := hsource
  have hmade : Machine.startWithin host.room s source host.console = _ := if_pos hroom
  simp only [start, hloaded, hmade, Except.map]
  exact ⟨_, _, rfl, rfl, ⟨source, opened, rfl, hopened, hholds⟩, rfl⟩

/-- A program that must not be read is found out when it is run, unless it is decoded in advance. -/
lemma start_denied (host : Host ε) (o : Options) (s : Settings) (name : String)
    (hroom : s.tapeLength ≤ host.room) (hstream : s.precompile = false) : ∃ printed session,
    start host o s (programReader name none) = (printed, .ok session) ∧
      ∀ n, session.run n = ({}, .error (.permissionDenied name)) := by
  have hloaded : Source.loaded s (programReader name none) = .ok (.stream (.ofLocked name), []) := by
    simp [Source.loaded, hstream, programReader]
  have hmade : Machine.startWithin host.room s (.stream (.ofLocked name)) host.console = _ := if_pos hroom
  simp only [start, hloaded, hmade, Except.map]
  exact ⟨_, _, rfl, fun n => rfl⟩

/-- A program is not started exactly if it has to be decoded in advance and must not be read, or if there is no
room for its tape. -/
lemma start_eq_error_iff (host : Host ε) (o : Options) (s : Settings) (name : String)
    (content : Option ByteArray) :
    (∃ printed fault, start host o s (programReader name content) = (printed, .error fault)) ↔
      s.precompile = true ∧ content = none ∨ host.room < s.tapeLength := by
  by_cases hdenied : s.precompile = true ∧ content = none
  · obtain ⟨hprecompile, rfl⟩ := hdenied
    have hloaded : Source.loaded s (programReader name none) = .error (.permissionDenied name) := by
      simp only [Source.loaded, hprecompile, if_true]
      rfl
    refine iff_of_true ⟨{}, .permissionDenied name, ?_⟩ (.inl ⟨hprecompile, rfl⟩)
    rw [start, hloaded]
  rw [or_iff_right hdenied]
  by_cases hroom : s.tapeLength ≤ host.room
  · refine iff_of_false ?_ (Nat.not_lt_of_le hroom)
    rintro ⟨printed, fault, hfault⟩
    cases content with
    | some content =>
      obtain ⟨printed', session, hstart, -⟩ := start_readable host o s name content hroom
      simp [hstart] at hfault
    | none =>
      have hstream : s.precompile = false := by simpa using hdenied
      obtain ⟨printed', session, hstart, -⟩ := start_denied host o s name hroom hstream
      simp [hstart] at hfault
  · refine iff_of_true ?_ (Nat.lt_of_not_le hroom)
    have hmade (source : Source) : Machine.startWithin host.room s source host.console = _ := if_neg hroom
    unfold start
    rcases Source.loaded s (programReader name content) with fault | ⟨source, reports⟩
    · exact ⟨_, _, rfl⟩
    · simp only [hmade]
      exact ⟨_, _, rfl⟩

/-- A number that is too long to be written comes from a settings file. -/
lemma Names.config_ne_empty (h : Names host arguments o content) {e : Error}
    (hsettings : host.settings o = .error (.refused e)) (hlong : e.hasLongNumber = true) : o.config ≠ "" := by
  intro hempty
  have hlayered : host.settings o = (layered [] host.environment o.layer).mapError .refused := by
    rw [Host.settings, hempty]
    rfl
  rw [hlayered] at hsettings
  cases hrefused : layered [] host.environment o.layer with
  | ok s => simp [hrefused, Except.mapError] at hsettings
  | error e' =>
    obtain rfl : e' = e := by simpa [hrefused, Except.mapError] using hsettings
    have hwritten := Options.written_of_parse h.parse_eq
    have hshort := not_hasLongNumber_of_layered (List.forall_mem_nil _) hwritten.short_layer hrefused
    simp [hshort] at hlong

/-- A command line fails exactly if there is a problem of the settings that is not told, or if the program is
not started. -/
lemma Names.failed_iff (h : Names host arguments o content) :
    (∃ reason, (prepare host arguments).2 = .failed reason) ↔
      o.config ≠ "" ∧ Illegible host.safeLoad (host.files o.config) ∨
      (o.config ≠ "" ∧ ∃ e, host.settings o = .error (.refused e) ∧ e.hasLongNumber = true) ∨
      ∃ s, host.settings o = .ok s ∧
        (s.precompile = true ∧ content = none ∨ host.room < s.tapeLength) := by
  have hvalue : (∃ e, host.settings o = .error e ∧ e.NoValue) ↔ _ := load_noValue_iff
  have hnamed : (o.config ≠ "" ∧ ∃ e, host.settings o = .error (.refused e) ∧ e.hasLongNumber = true) ↔
      ∃ e, host.settings o = .error (.refused e) ∧ e.hasLongNumber = true :=
    and_iff_right_of_imp fun ⟨_, hsettings, hlong⟩ => h.config_ne_empty hsettings hlong
  rw [← hvalue, hnamed, h.prepare_eq]
  cases hsettings : host.settings o with
  | error e =>
    simp only [Except.error.injEq, exists_eq_left', reduceCtorEq, false_and, exists_false, or_false]
    rw [← settingsProblem_eq_error_iff]
    cases settingsProblem e <;> simp
  | ok s =>
    simp only [Except.ok.injEq, exists_eq_left', reduceCtorEq, false_and, exists_false, false_or]
    rw [← start_eq_error_iff host o s (o.program.getD "") content]
    rcases start host o s (programReader (o.program.getD "") content) with ⟨printed, fault | session⟩ <;> simp

/-- How a command line ends that names an existing program of the standard dialect. It ends without a status
before anything is run exactly if a settings file is named that is illegible, or one with which the settings are
refused for something that has too long a number in it to be told, or if with the settings the program must not
be read or there is no room for its tape. Any other problem of the settings is told on one line, and the status
is that nothing was run. Otherwise the program is run. One that must not be read is at fault when it is opened.
One whose cells are code points is at fault exactly at its first request that is not met, and as long as there
is text on the console these are the requests to write half of a surrogate pair, which smaller cells never make.
Whenever all requests are met, the status tells whether there was a loop without an end: after that, and only
after that, it is that the program halted. -/
theorem exit_status (h : Names host arguments o content) :
    let prepared := prepare host arguments
    let loaded := host.settings o
    ((∃ reason, prepared.2 = .failed reason) ↔
      o.config ≠ "" ∧ Illegible host.safeLoad (host.files o.config) ∨
      (o.config ≠ "" ∧ ∃ e, loaded = .error (.refused e) ∧ e.hasLongNumber = true) ∨
      ∃ s, loaded = .ok s ∧ (s.precompile = true ∧ content = none ∨ host.room < s.tapeLength)) ∧
    (∀ e, loaded = .error e → (∀ reason, prepared.2 ≠ .failed reason) →
      ∃ reason, settingsProblem e = .ok reason ∧
        prepared = (notice o ++ fatal reason, .ended .fatal) ∧ ExitStatus.fatal.code = 1) ∧
    ∀ s, loaded = .ok s → s.tapeLength ≤ host.room →
      (∀ program, content = some program → ∃ session, prepared.2 = .ready session ∧
        session.Starts o s program.data host.console ∧
        (s.cellMax ≤ Machine.lastCodePoint → ∀ n,
          (∀ f, (session.run n).2 = .error f ↔ session.failure? n = some f) ∧
          (host.undecodable = false →
            (session.failure? n = none ↔
              ∀ code ∈ Event.written (session.outcome n).events, code.isValidChar) ∧
            (s.cellMax < 0xD800 → session.failure? n = none)) ∧
          (session.failure? n = none →
            (session.outcome n).Orderly ∧
            ((session.run n).2.map ExitStatus.code = .ok 2 ↔ Event.Unclosed (session.outcome n).events) ∧
            ((session.run n).2.map ExitStatus.code = .ok 0 ↔
              ¬ Event.Unclosed (session.outcome n).events)))) ∧
      (content = none → s.precompile = false → ∃ session, prepared.2 = .ready session ∧
        ∀ n, session.run n = ({}, .error (.permissionDenied (o.program.getD "")))) := by
  intro prepared loaded
  have hprepared : prepared = _ := h.prepare_eq
  refine ⟨h.failed_iff, fun e hload htold => ?_, fun s hload hroom => ⟨fun program hcontent => ?_, ?_⟩⟩
  · change host.settings o = .error e at hload
    rw [hload] at hprepared
    cases hproblem : settingsProblem e with
    | error failure => exact absurd (by simp [hprepared, hproblem]) (htold failure)
    | ok reason => exact ⟨reason, rfl, by simp [hprepared, hproblem], rfl⟩
  · change host.settings o = .ok s at hload
    subst hcontent
    obtain ⟨printed, session, hstart, hundecodable, hstarts⟩ :=
      start_readable host o s (o.program.getD "") program hroom
    refine ⟨session, by simp [hprepared, hload, hstart], hstarts, fun hmax n => ?_⟩
    refine ⟨hstarts.fault_iff hmax n, fun hdecodable => ?_, fun hmet => ?_⟩
    · rw [← hundecodable] at hdecodable
      exact ⟨Session.failure?_eq_none_iff hdecodable,
        fun hsmall => hstarts.failure?_eq_none hsmall hdecodable n⟩
    · have horderly := hstarts.orderly hmax n
      rw [Session.run_status hmet, horderly.result_eq, ← horderly.halted_iff]
      refine ⟨horderly, ?_⟩
      cases hhalted : (session.outcome n).machine.halted <;>
        simp [Except.map, Session.statusOf, hhalted, ExitStatus.code]
  · change host.settings o = .ok s at hload
    rintro rfl hstream
    obtain ⟨printed, session, hstart, hrun⟩ := start_denied host o s (o.program.getD "") hroom hstream
    exact ⟨session, by simp [hprepared, hload, hstart], hrun⟩

/-- A host with some files, room for a tape of standard length and nothing on the console, whose loader knows
one text only. -/
def hostOf (entries : List (String × ByteArray)) : Host Unit where
  files path := (entries.lookup path).elim .missing .file
  environment := []
  safeLoad text := if text = "tape_length: 3".toList then .ok (.map [(.text "tape_length", .int 3)]) else .error ()
  room := 30000

theorem exit_status_of_unclosed :
    let host := hostOf [("a.bf", "[".toUTF8), ("c.yaml", "tape_length: 3".toUTF8)]
    let arguments := ["a.bf", "--config", "c.yaml"]
    let o : Options := { program := some "a.bf", config := "c.yaml" }
    Names host arguments o (some "[".toUTF8) ∧ host.settings o = .ok { tapeLength := 3 } ∧
    ∃ session, (prepare host arguments).2 = .ready session ∧ ∀ n, session.failure? n = none ∧
      ((session.run n).2.map ExitStatus.code = .ok 2 ↔ Event.Unclosed (session.outcome n).events) := by
  intro host arguments o
  have hnames : Names host arguments o (some "[".toUTF8) := ⟨by decide +kernel, rfl, by decide +kernel⟩
  have hsettings : host.settings o = .ok { tapeLength := 3 } := by rfl
  obtain ⟨session, hready, -, hruns⟩ :=
    ((exit_status hnames).2.2 _ hsettings (by decide)).1 _ rfl
  refine ⟨hnames, hsettings, session, hready, fun n => ?_⟩
  obtain ⟨-, hcharacters, hmet⟩ := hruns (by decide) n
  have hnone := (hcharacters rfl).2 (by decide)
  exact ⟨hnone, (hmet hnone).2.1⟩

/-- A settings file of one byte that begins no character is not told. -/
theorem not_always_told :
    ¬ ∀ (host : Host Unit) arguments o content, Names host arguments o (some content) →
      ∀ e, host.settings o = .error e →
        ∃ reason, prepare host arguments = (notice o ++ fatal reason, .ended .fatal) := by
  intro htold
  let host := hostOf [("a.bf", "+".toUTF8), ("c.yaml", ⟨#[255]⟩)]
  let o : Options := { program := some "a.bf", config := "c.yaml" }
  have hnames : Names host ["a.bf", "--config", "c.yaml"] o (some "+".toUTF8) :=
    ⟨by decide +kernel, rfl, by decide +kernel⟩
  have hsettings : host.settings o = .error .undecodable := by rfl
  obtain ⟨reason, hprepare⟩ := htold _ _ o _ hnames _ hsettings
  simp [hnames.prepare_eq, hsettings, settingsProblem] at hprepare

/-- A bracket alone halts the program. -/
example : (match (prepare (hostOf [("a.bf", "[".toUTF8)]) ["a.bf", "--tape-length=1"]).2 with
    | .ready session => (session.run 2).2.toOption.map ExitStatus.code
    | _ => none) = some 2 := by decide +kernel

end CommandLine

end Brainfuck
