import Lia.Command
import Lia.Proofs.Archive
import Lia.Proofs.Project
import Lia.Proofs.Stmt.WellFormed
import Lia.Proofs.Value.Json

/-!
# Runs of the command line

A run that does not succeed leaves every file as it is, and a source that is a program always
makes it succeed if the output can be written. Main statement: what a run prints and what the
one file holds that it writes, for every command, output name, system and archiver
(`Command.run_frame`).
-/

namespace Lia

/-- A character or a token that is not expected, as against a number that has no value. -/
inductive SourceError.Unexpected : SourceError → Prop
  | lexical {offset : Nat} {snippet : String} : Unexpected (.lexical (.unexpected offset snippet))
  | grammatical {e : ParseError} : Unexpected (.grammatical (.unexpected e))

namespace Invocation

/-- The parameters that the options ask for. -/
def parameters (i : Invocation) : Parameters where
  agent := match i.agent with
    | some name => .text name
    | none => .list []
  pretty := i.pretty

/-- The name of the file that a command makes: the one that is given, unless it is empty. -/
def product? (i : Invocation) : Option String :=
  let given := i.out.filter (· ≠ "")
  match i.command with
  | .ast | .format => none
  | .exportLia => some (given.getD "out.lia")
  | .compile => some (given.getD "out.sb3")

/-- What that file holds: the program as a record, or an archive of the document of what the
program is lowered to, and of the backdrop. -/
inductive Makes (archiver : Archiver) (i : Invocation) (source : IdSource) (p : Program) :
    ByteArray → Prop
  | record {text : String} (hc : i.command = .exportLia)
      (ht : text = Json.write { indent := some 2, sorted := false, ascii := false } p.toRecord)
      (hs : Json.Spells p.toRecord text) : Makes archiver i source p text.toUTF8
  | project {bytes : ByteArray} {document : Value} {text : String} (hc : i.command = .compile)
      (hl : (p.compile i.parameters source).result = .ok ())
      (hd : Project.Describes (p.compile i.parameters source).state.target i.parameters document)
      (ht : text = Json.write (if i.pretty then { indent := some 4, sorted := true, ascii := true }
        else .compact) document)
      (hs : Json.Spells document text)
      (hb : archiver.unpack bytes = some [⟨"project.json", text⟩,
        ⟨"0ac33de9d7138a386563727540d10055.svg", Asset.backdrop.content⟩]) :
      Makes archiver i source p bytes

/-- The file that a command makes of a program, with its name. -/
def output? (i : Invocation) (source : IdSource) (p : Program) : Option (String × Output) :=
  match i.command with
  | .ast | .format => none
  | .exportLia =>
    some (Command.outputName i "out.lia", .text (Json.write recordStyle p.toRecord))
  | .compile =>
    some (Command.outputName i "out.sb3",
      .archive (Project.entries (p.compile i.parameters source).state.target i.parameters))

theorem outputName_eq (i : Invocation) (fallback : String) :
    Command.outputName i fallback = (i.out.filter (· ≠ "")).getD fallback := by
  unfold Command.outputName
  cases i.out with
  | none => rfl
  | some name => by_cases h : name = "" <;> simp [Option.filter, h]

theorem map_output? (i : Invocation) (source : IdSource) (p : Program) :
    (i.output? source p).map Prod.fst = i.product? := by
  unfold output? product?
  cases i.command <;> simp [outputName_eq]

end Invocation

namespace Command

variable {i : Invocation} {file text : String} {source : IdSource} {content : ByteArray}
  {p : Program}

-- ---------------------------------------------------------------------------
-- What a command does with a program
-- ---------------------------------------------------------------------------

theorem execute_compile (hc : i.command = .compile) (source : IdSource) (p : Program) :
    (execute i source p).2 = match (p.compile i.parameters source).result with
      | .error e => { status := .error (.lowering e) }
      | .ok () => { status := .ok 0, stdout := "Compiled to " ++ outputName i "out.sb3" ++ "\n"
                    output := i.output? source p } := by
  simp only [execute, Invocation.output?, hc]
  rfl

/-- A file is written only if nothing else fails. -/
theorem execute_output (h : (execute i source p).2.output ≠ none) :
    (execute i source p).2.status = .ok 0 := by
  cases hc : i.command with
  | compile =>
    rw [execute_compile hc] at h ⊢
    cases hr : (p.compile i.parameters source).result with
    | error => simp [hr] at h
    | ok => rfl
  | ast => simp only [execute, hc]
  | exportLia => simp only [execute, hc]
  | format =>
    simp only [execute, hc] at h ⊢
    cases hf : p.format with
    | error => simp [hf] at h
    | ok => rfl

/-- Neither lowering nor printing can fail on a well-formed program. -/
theorem execute_wellFormed (hp : p.WellFormed) (i : Invocation) (source : IdSource) :
    (execute i source p).2.status = .ok 0 ∧
      (execute i source p).2.output = i.output? source p ∧
      (i.command = .format → p.format = .ok (execute i source p).2.stdout) := by
  cases hc : i.command with
  | compile =>
    have hr : (p.compile i.parameters source).result = .ok () :=
      hp.compile_ok (show (5 : Int) ≠ 0 by decide) _ source
    rw [execute_compile hc, hr]
    exact ⟨rfl, rfl, nofun⟩
  | ast => simp [execute, Invocation.output?, hc]
  | exportLia => simp [execute, Invocation.output?, hc]
  | format =>
    obtain ⟨text, ht⟩ := hp.format_ok defaultIndent
    simp [execute, Invocation.output?, hc, ht]

-- ---------------------------------------------------------------------------
-- What a command does with a source
-- ---------------------------------------------------------------------------

theorem perform_program (ht : decode? content = some text) (hp : parseSource text = .ok p)
    (i : Invocation) (file : String) (source : IdSource) :
    ∃ log, perform i file source content = { (execute i source p).2 with log } := by
  cases hr : readSource text with
  | mk notes result =>
    obtain rfl : result = .ok p := (congrArg Prod.snd hr).symm.trans hp
    exact ⟨_, by rw [perform, ht]; simp only [hr]; rfl⟩

theorem perform_error {e : SourceError} (ht : decode? content = some text)
    (he : parseSource text = .error e) (i : Invocation) (file : String) (source : IdSource) :
    (perform i file source content).output = none ∧
      (perform i file source content).status ≠ .ok 0 ∧
      (e.Unexpected → (perform i file source content).status = .ok 1 ∧
        (perform i file source content).stdout = report file text e) := by
  cases hr : readSource text with
  | mk notes result =>
    obtain rfl : result = .error e := (congrArg Prod.snd hr).symm.trans he
    rw [perform, ht]
    simp only [hr]
    cases e with
    | lexical e =>
      cases e with
      | unexpected => exact ⟨rfl, nofun, fun _ => ⟨rfl, rfl⟩⟩
      | integerTooLong => exact ⟨rfl, nofun, nofun⟩
    | grammatical e =>
      cases e with
      | unexpected => exact ⟨rfl, nofun, fun _ => ⟨rfl, rfl⟩⟩
      | outOfTokens => exact ⟨rfl, nofun, nofun⟩

theorem perform_output (h : (perform i file source content).output ≠ none) :
    (perform i file source content).status = .ok 0 := by
  cases ht : decode? content with
  | none => exact (h (by rw [perform, ht])).elim
  | some text =>
    cases hp : parseSource text with
    | error e => exact (h (perform_error ht hp i file source).1).elim
    | ok p =>
      obtain ⟨log, ho⟩ := perform_program ht hp i file source
      rw [ho] at h ⊢
      exact execute_output h

-- ---------------------------------------------------------------------------
-- What a file holds
-- ---------------------------------------------------------------------------

/-- What is written of a well-formed program is what the command makes. -/
theorem output?_makes (archiver : Archiver) (hp : p.WellFormed) {name : String} {output : Output}
    (h : i.output? source p = some (name, output)) :
    i.Makes archiver source p (output.bytes archiver.pack) := by
  cases hc : i.command with
  | ast | format =>
    rw [Invocation.output?, hc] at h
    cases h
  | exportLia =>
    rw [Invocation.output?, hc] at h
    cases h
    exact .record hc rfl (Json.write_spells _ _)
  | compile =>
    rw [Invocation.output?, hc] at h
    cases h
    refine .project hc (hp.compile_ok (show (5 : Int) ≠ 0 by decide) _ source)
      (Project.document_describes _ _) rfl (Json.write_spells _ _) ?_
    rw [Output.bytes, archiver.unpack_pack (Project.entries_isPlain _ _), Project.entries,
      Asset.backdrop_fileName]
    rfl

-- ---------------------------------------------------------------------------
-- Runs
-- ---------------------------------------------------------------------------

section
variable {fs : FileSystem σ} {pack : List Entry → ByteArray} {s : σ} (hf : i.file = some file)
  (hr : fs.read s file = .ok content)
include hf hr

theorem run_of_none (ho : (perform i file source content).output = none) :
    run fs pack i source s = (perform i file source content, s) := by
  simp only [run, hf, hr, ho]

theorem run_written {name : String} {output : Output} {s' : σ}
    (ho : (perform i file source content).output = some (name, output))
    (hw : fs.write s name (output.bytes pack) = (.ok (), s')) :
    run fs pack i source s = (perform i file source content, s') := by
  simp only [run, hf, hr, ho, hw]

theorem run_unwritten {name : String} {output : Output} {s' : σ} {e : FileError}
    (ho : (perform i file source content).output = some (name, output))
    (hw : fs.write s name (output.bytes pack) = (.error e, s')) :
    run fs pack i source s =
      ({ status := .error (.file e), log := (perform i file source content).log }, s') := by
  simp only [run, hf, hr, ho, hw]

/-- Whether it can be written or not, nothing but the output is. -/
theorem run_state {name : String} {output : Output}
    (ho : (perform i file source content).output = some (name, output)) :
    (run fs pack i source s).2 = (fs.write s name (output.bytes pack)).2 := by
  cases hw : fs.write s name (output.bytes pack) with
  | mk answer s' =>
    cases answer with
    | ok => rw [run_written hf hr ho hw]
    | error => rw [run_unwritten hf hr ho hw]

end

/-- A run that does not succeed has written nothing, unless it is the writing that failed. -/
theorem run_unsuccessful {fs : FileSystem σ} {pack : List Entry → ByteArray} {s : σ}
    (h : (run fs pack i source s).1.status ≠ .ok 0) :
    (run fs pack i source s).2 = s ∨ ∃ name bytes e,
      fs.write s name bytes = (.error e, (run fs pack i source s).2) ∧
        (run fs pack i source s).1.status = .error (.file e) := by
  cases hf : i.file with
  | none => simp [run, hf]
  | some file =>
    cases hr : fs.read s file with
    | error e => simp [run, hf, hr]
    | ok content =>
      cases ho : (perform i file source content).output with
      | none =>
        rw [run_of_none hf hr ho]
        exact .inl rfl
      | some written =>
        cases hw : fs.write s written.1 (written.2.bytes pack) with
        | mk answer s' =>
          cases answer with
          | error e =>
            rw [run_unwritten hf hr ho hw]
            exact .inr ⟨_, _, _, hw, rfl⟩
          | ok =>
            rw [run_written hf hr ho hw] at h
            exact absurd (perform_output (by simp [ho])) h

/-- A run on a source that is no program leaves everything as it is, and an unexpected
character or token is reported. On a program `ast` and `format` leave everything as it is too,
and the other commands write the file that they make under the output name and no other. -/
theorem run_frame (fs : FileSystem σ) (files : fs.Files) (archiver : Archiver) (i : Invocation)
    (source : IdSource) {s : σ} (hf : i.file = some file) (hr : fs.read s file = .ok content)
    (ht : decode? content = some text) :
    let o := (run fs archiver.pack i source s).1
    let s' := (run fs archiver.pack i source s).2
    (∀ e, parseSource text = .error e → s' = s ∧ o.status ≠ .ok 0 ∧
      (e.Unexpected → o.status = .ok 1 ∧ o.stdout = report file text e)) ∧
    ∀ p, parseSource text = .ok p →
      (i.product? = none → s' = s ∧ o.status = .ok 0 ∧
        (i.command = .format → p.format = .ok o.stdout)) ∧
      ∀ name, i.product? = some name → ∃ bytes, i.Makes archiver source p bytes ∧
        s' = (fs.write s name bytes).2 ∧
        ((fs.write s name bytes).1 = .ok () → o.status = .ok 0 ∧
          ∀ f, files.file? s name = some f → files.content? s' f = some bytes) ∧
        (∀ f, files.file? s name ≠ some f → files.content? s' f = files.content? s f) ∧
        (files.file? s name ≠ files.file? s file →
          ∀ f, files.file? s file = some f → files.content? s' f = some content) := by
  intro o s'
  refine ⟨fun e he => ?_, fun p hp => ?_⟩
  · obtain ⟨ho, hs, hreport⟩ := perform_error ht he i file source
    have hrun : run fs archiver.pack i source s = (_, s) := run_of_none hf hr ho
    have hout : o = perform i file source content := congrArg Prod.fst hrun
    exact ⟨congrArg Prod.snd hrun, hout ▸ hs, hout ▸ hreport⟩
  · obtain ⟨log, hl⟩ := perform_program ht hp i file source
    obtain ⟨hs, hout, hformat⟩ := execute_wellFormed (.of_parseSource hp) i source
    refine ⟨fun hn => ?_, fun name hn => ?_⟩
    · have ho : (perform i file source content).output = none := by
        rw [hl]
        exact hout.trans (Option.map_eq_none_iff.1 ((i.map_output? source p).trans hn))
      have hrun : run fs archiver.pack i source s = (_, s) := run_of_none hf hr ho
      rw [hl] at hrun
      have hperformed : o = { (execute i source p).2 with log } := congrArg Prod.fst hrun
      exact ⟨congrArg Prod.snd hrun, hperformed ▸ hs, hperformed ▸ hformat⟩
    · obtain ⟨⟨out, output⟩, hproduct, rfl⟩ :=
        Option.map_eq_some_iff.1 ((i.map_output? source p).trans hn)
      have ho : (perform i file source content).output = some (out, output) := by
        rw [hl]
        exact hout.trans hproduct
      have hstate : s' = (fs.write s out (output.bytes archiver.pack)).2 := run_state hf hr ho
      refine ⟨_, output?_makes archiver (.of_parseSource hp) hproduct, hstate, fun hw => ?_,
        fun f hne => ?_, fun hne f hfile => ?_⟩
      · have hrun : run fs archiver.pack i source s = _ := run_written hf hr ho (Prod.ext hw rfl)
        rw [hl] at hrun
        have hperformed : o = { (execute i source p).2 with log } := congrArg Prod.fst hrun
        refine ⟨hperformed ▸ hs, fun f hname => ?_⟩
        rw [hstate]
        exact files.content?_write hw hname
      · rw [hstate]
        exact files.content?_write_of_ne hne
      · rw [hstate, files.content?_write_of_ne (hfile ▸ hne)]
        exact files.content?_of_read hr hfile

/-- A source that is a program and one that is none. -/
def twoSources : Folder := [("a.lia", ";".toUTF8), ("b.lia", "?".toUTF8)]

theorem twoSources_frame :
    let built : Invocation := { command := .compile, file := some "a.lia", out := none }
    let refused : Invocation := { command := .exportLia, file := some "b.lia", out := some "a.lia" }
    let r := run .folder Archive.storing.pack built (.ofList []) twoSources
    let r' := run .folder Archive.storing.pack refused (.ofList []) twoSources
    parseSource ";" = .ok ⟨[.empty]⟩ ∧ r.1.status = .ok 0 ∧
    (∃ bytes, built.Makes Archive.storing (.ofList []) ⟨[.empty]⟩ bytes ∧
      r.2.lookup "out.sb3" = some bytes) ∧
    r.2.lookup "a.lia" = some ";".toUTF8 ∧
    parseSource "?" = .error (.lexical (.unexpected 0 "?")) ∧ r'.2 = twoSources ∧
    r'.1.status = .ok 1 ∧ r'.1.stdout = report "b.lia" "?" (.lexical (.unexpected 0 "?")) := by
  intro built refused r r'
  have htokens : tokenize ";" = .ok [⟨.punct, ";", some 0, ";"⟩, .eof 1] := by
    have hend : scan 1 [] = .ok [.eof 1] := by rw [scan]
    exact scan_munch (s := ";".toList) (m := ⟨.punct, _, _⟩) rfl rfl hend
  have hp : parseSource ";" = .ok ⟨[.empty]⟩ :=
    parseSource_ok_iff.2 ⟨_, htokens, (parse_ok_iff (tokenize_tokenized htokens) none _).1 rfl⟩
  have hstray : tokenize "?" = .error (.unexpected 0 "?") := by
    have hs : tokenize "?" = scan 0 ['?'] := rfl
    rw [hs, scan]
    rfl
  have he : parseSource "?" = .error (.lexical (.unexpected 0 "?")) := by
    rw [parseSource, readSource, hstray]
  obtain ⟨-, hbuilt⟩ := run_frame .folder .folder Archive.storing built (.ofList [])
    (s := twoSources) rfl (FileSystem.folder_read.2 rfl) (show decode? ";".toUTF8 = some ";" from rfl)
  obtain ⟨-, hproduct⟩ := hbuilt _ hp
  obtain ⟨bytes, hmakes, -, hwritten, -, hsource⟩ := hproduct "out.sb3" rfl
  obtain ⟨hstatus, hout⟩ := hwritten rfl
  obtain ⟨hrefused, -⟩ := run_frame .folder .folder Archive.storing refused (.ofList [])
    (s := twoSources) rfl (FileSystem.folder_read.2 rfl) (show decode? "?".toUTF8 = some "?" from rfl)
  obtain ⟨hafter, -, hreport⟩ := hrefused _ he
  obtain ⟨hstatus', hstdout⟩ := hreport .lexical
  have hkept := hsource (show some "out.sb3" ≠ some "a.lia" by decide) _ rfl
  exact ⟨hp, hstatus, ⟨bytes, hmakes, hout _ rfl⟩, hkept, he, hafter, hstatus', hstdout⟩

end Command

end Lia
