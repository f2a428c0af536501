import FieldExpr.CommandLine.Session
import FieldExpr.Proofs.Artifact.Limits

/-!
# Checked files

A session that succeeds is a chain of sessions that do
(`Session.result_bind_eq_ok_iff`), so a check that succeeds tells what was
loaded and read on the way. A check reads under the settings with the scopes
checked, and the other commands under the settings as they are, which are no
narrower: they all read the program that the check has read.
-/

namespace FieldExpr

namespace CommandLine

/-! ## Sessions -/

variable {α β : Type} {session : Session α} {next : α → Session β}
    {log later : List LogEntry}

/-- The result of a session that starts with this log, and the log that it
leaves behind. -/
def Session.result (session : Session α) (log : List LogEntry) :
    Except Failure α × List LogEntry :=
  StateT.run (ExceptT.run session) log

/-- The session after one that succeeds goes on with its result and its log. -/
theorem Session.result_bind_of_ok {a : α}
    (first : session.result log = (.ok a, later)) :
    (session >>= next).result log = (next a).result later := by
  show (ExceptT.bindCont next (session.result log).1).run (session.result log).2 = _
  rw [first]
  rfl

/-- One session after another succeeds when both do. -/
theorem Session.result_bind_eq_ok_iff {b : β} :
    (session >>= next).result log = (.ok b, later) ↔
    ∃ a between, session.result log = (.ok a, between) ∧
    (next a).result between = (.ok b, later) := by
  constructor
  · intro succeeded
    cases first : session.result log with
    | mk result between =>
      cases result with
      | error failure =>
        change (ExceptT.bindCont next (session.result log).1).run
          (session.result log).2 = _ at succeeded
        rw [first] at succeeded
        cases succeeded
      | ok a =>
        exact ⟨a, between, rfl, (result_bind_of_ok first).symm.trans succeeded⟩
  · rintro ⟨a, between, first, second⟩
    exact (result_bind_of_ok first).trans second

theorem Session.result_orFail_eq_ok_iff {ε : Type} {failure : ε → Failure}
    {x : Except ε α} {a : α} :
    (orFail failure x).result log = (.ok a, later) ↔ x = .ok a ∧ log = later := by
  cases x with
  | error error =>
    constructor
    · intro failed
      cases failed
    · rintro ⟨failed, _⟩
      cases failed
  | ok b =>
    constructor
    · intro succeeded
      cases succeeded
      exact ⟨rfl, rfl⟩
    · rintro ⟨same, rfl⟩
      cases same
      rfl

theorem Session.outcome_of_ok {session : Session String} {output : String}
    (printed : session.result [] = (.ok output, log)) :
    session.outcome = { code := 0, output, errors := "", log } := by
  unfold result at printed
  unfold outcome
  rw [printed]

theorem Session.outcome_congr {first second : Session String}
    (same : first.result [] = second.result []) :
    first.outcome = second.outcome := by
  unfold result at same
  unfold outcome
  rw [same]

/-- What is printed has been printed by a session that succeeded. -/
theorem Session.result_of_output {session : Session String} {output : String}
    (some : output ≠ "") (printed : session.outcome.output = output) :
    ∃ log, session.result [] = (.ok output, log) := by
  unfold outcome at printed
  unfold result
  split at printed
  · rename_i printed' log result
    subst printed
    exact ⟨log, result⟩
  · exact absurd printed.symm some

/-! ## Checked files -/

section

variable {sources : Sources} {settings : Option String} {path : String}
  {verbosity : Nat} {config : EngineConfig} {bytes : List UInt8} {p : Program}

theorem Session.result_loadProgram (file : sources.file path = .ok bytes)
    (read : Program.ofBytes config bytes = .ok p) :
    (loadProgram sources config path).result log = (.ok p, log) :=
  result_bind_eq_ok_iff.mpr
    ⟨bytes, log, result_orFail_eq_ok_iff.mpr ⟨file, rfl⟩,
      result_orFail_eq_ok_iff.mpr ⟨read, rfl⟩⟩

/-- A check that succeeds has loaded a configuration and has read a program with
sound scopes under it. -/
theorem read_of_check
    (succeeded : (Invocation.run sources
      ⟨verbosity, settings, .check path⟩).output = "OK\n") :
    ∃ config log bytes p, (Session.loadConfig sources settings).result [] =
      (.ok config, log) ∧
      sources.file path = .ok bytes ∧
      Program.ofBytes { config with validateOnDecode := true } bytes = .ok p := by
  obtain ⟨_, session⟩ := Session.result_of_output (by decide) succeeded
  obtain ⟨config, log, loaded, check⟩ := Session.result_bind_eq_ok_iff.mp session
  obtain ⟨bytes, _, opened, rest⟩ := Session.result_bind_eq_ok_iff.mp check
  obtain ⟨p, _, decoded, _⟩ := Session.result_bind_eq_ok_iff.mp rest
  exact ⟨config, log, bytes, p, loaded,
    (Session.result_orFail_eq_ok_iff.mp opened).1,
    (Session.result_orFail_eq_ok_iff.mp decoded).1⟩

end

/-- What is read under a configuration is read, as the same program, under every
configuration that allows as much depth and checks scopes only where the first
one does; limits beyond the greatest machine word count as that word. So a file
that passes the check is read as one program by all commands under the same
settings: it is shown, its digest is printed, and its evaluation fails at most
over the subject or in the evaluation itself. -/
theorem readings_widen :
    (∀ narrow wide : EngineConfig, narrow.maxDepth ≤ wide.maxDepth →
      (wide.validateOnDecode = true → narrow.validateOnDecode = true) → ∀ bytes p,
        Program.ofBytes narrow bytes = .ok p → Program.ofBytes wide bytes = .ok p) ∧
    ∀ (sources : Sources) (settings : Option String) (path : String)
      (verbosity : Nat),
      (Invocation.run sources ⟨verbosity, settings, .check path⟩).output = "OK\n" →
      ∃ config log bytes p, (Session.loadConfig sources settings).result [] =
        (.ok config, log) ∧
        sources.file path = .ok bytes ∧
        Program.ofBytes { config with validateOnDecode := true } bytes = .ok p ∧
        Program.ofBytes config bytes = .ok p ∧
        Invocation.run sources ⟨verbosity, settings, .inspect path⟩ =
          { code := 0, output := inspection p, errors := "", log } ∧
        Invocation.run sources ⟨verbosity, settings, .digest path⟩ =
          { code := 0, output := p.digest.hex ++ "\n", errors := "", log } ∧
        ∀ subject indented, Invocation.run sources ⟨verbosity, settings,
          .eval path subject indented⟩ =
          Session.outcome (Session.loadConfig sources settings >>= fun config =>
            printEvaluation sources config subject indented p) := by
  refine ⟨fun narrow wide depth checks bytes p read =>
    Program.ofBytes_of_wider ⟨depth, checks⟩ read, ?_⟩
  intro sources settings path verbosity succeeded
  obtain ⟨config, log, bytes, p, loaded, file, strict⟩ := read_of_check succeeded
  have wider : EngineConfig.Wider { config with validateOnDecode := true } config :=
    ⟨UInt64.le_refl _, fun _ => rfl⟩
  have read := Program.ofBytes_of_wider wider strict
  have program : (Session.loadProgram sources config path).result log =
      (.ok p, log) :=
    Session.result_loadProgram file read
  refine ⟨config, log, bytes, p, loaded, file, strict, read, ?_, ?_, ?_⟩
  · exact Session.outcome_of_ok
      ((Session.result_bind_of_ok loaded).trans (Session.result_bind_of_ok program))
  · exact Session.outcome_of_ok
      ((Session.result_bind_of_ok loaded).trans (Session.result_bind_of_ok program))
  · intro subject indented
    refine Session.outcome_congr ?_
    rw [Session.result_bind_of_ok loaded, Session.result_bind_of_ok loaded]
    exact Session.result_bind_of_ok program

/-- A function that hands on its input, under a scope check. -/
def handedOn : List UInt8 :=
  "\x7b\"version\":1,\"program\":".toUTF8.data.toList ++
    "\x7b\"kind\":\"function_def\",\"binding\":0,".toUTF8.data.toList ++
    "\"body\":\x7b\"kind\":\"lookup\",\"binding\":0\x7d,".toUTF8.data.toList ++
    "\"input\":\x7b\"kind\":\"identity\"\x7d\x7d\x7d".toUTF8.data.toList

/-- Two files: settings that leave room for one level and no scope check, and a
program that needs that level. -/
def handedOnFiles : Sources where
  file path :=
    if path = "settings" then
      .ok "\x7b\"max_depth\":1,\"validate_on_decode\":false\x7d".toUTF8.data.toList
    else if path = "program" then .ok handedOn
    else .error .missing
  input := .ok []

/-- The program is read under the least limit it needs and under the greatest
there is, and its file is read after a check as it was in the check. -/
theorem readings_widen_handedOn :
    ∃ p, Program.ofBytes { maxDepth := 1 } handedOn = .ok p ∧ p.depth = 2 ∧
    Program.ofBytes { maxDepth := 0xffffffffffffffff, validateOnDecode := false }
      handedOn = .ok p ∧
    (Invocation.run handedOnFiles
      ⟨0, some "settings", .check "program"⟩).output = "OK\n" ∧
    ∃ (q : Program) (log : List LogEntry), Invocation.run handedOnFiles
      ⟨0, some "settings", .digest "program"⟩ =
      { code := 0, output := q.digest.hex ++ "\n", errors := "", log } := by
  have accepted : (Program.ofBytes { maxDepth := 1 } handedOn).toOption.any
      (fun p => p.depth == 2) = true := by
    decide +kernel
  have passes :
      (Invocation.run handedOnFiles
        ⟨0, some "settings", .check "program"⟩).output = "OK\n" := by
    decide +kernel
  obtain ⟨widen, checked⟩ := readings_widen
  obtain ⟨_, log, _, q, _, _, _, _, _, digest, _⟩ :=
    checked handedOnFiles (some "settings") "program" 0 passes
  cases read : Program.ofBytes { maxDepth := 1 } handedOn with
  | error error =>
    rw [read] at accepted
    cases accepted
  | ok p =>
    rw [read] at accepted
    exact ⟨p, rfl, beq_iff_eq.mp accepted,
      widen _ _ (by decide) (fun _ => rfl) handedOn p read, passes, q, log, digest⟩

end CommandLine

end FieldExpr
