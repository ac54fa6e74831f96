import Lia.Command.Arguments
import Lia.FileSystem
import Lia.Project
import Lia.Report
import Lia.Stmt.Print
import Lia.Stmt.Record

/-!
# The command line

A run reads one source file, prints, and writes at most one file. `perform` is what
a command does with the content of the source; `run` adds the reading and the writing.
A file is written only after everything else has succeeded.
-/

namespace Lia

/-- What a file is to hold. -/
inductive Output
  | text (s : String)
  | archive (entries : List Entry)

def Output.bytes (pack : List Entry → ByteArray) : Output → ByteArray
  | .text s => s.toUTF8
  | .archive entries => pack entries

namespace Command

/-- Why a run ends without a status. -/
inductive Failure
  | file (e : FileError)
  /-- The source is not UTF-8. -/
  | undecodable
  | source (e : SourceError)
  | lowering (e : LoweringError)
  | printing (e : PrintError)

def Failure.message : Failure → String
  | .file e => e.message
  | .undecodable => "source is not UTF-8"
  | .source e => e.message
  | .lowering e => e.message
  | .printing e => e.message

structure Outcome where
  status : Except Failure Nat
  stdout : String := ""
  /-- The file to be written, and what to print when that has been done. -/
  output : Option (String × Output) := none
  /-- What a verbose run logs, line by line. -/
  log : List String := []

/-- The errors that are reported to the user. Others end the run. -/
private def isReported : SourceError → Bool
  | .lexical (.unexpected ..) | .grammatical (.unexpected _) => true
  | _ => false

/-- The source text of a file: UTF-8 with any kind of line break. -/
def decode? (content : ByteArray) : Option String :=
  (String.fromUTF8? content).map fun s => String.ofList (Text.unifyBreaks s.toList)

/-- An empty output name counts as none. -/
def outputName (i : Invocation) (fallback : String) : String :=
  match i.out with
  | some name => if name = "" then fallback else name
  | none => fallback

def execute (i : Invocation) (source : IdSource) (p : Program) : List Note × Outcome :=
  match i.command with
  | .ast => ([], { status := .ok 0, stdout := Json.write (.indented 2) p.toRecord ++ "\n" })
  | .format =>
    match p.format with
    | .ok text => ([], { status := .ok 0, stdout := text })
    | .error e => ([], { status := .error (.printing e) })
  | .exportLia =>
    let out := outputName i "out.lia"
    ([], { status := .ok 0, stdout := "Exported .lia to " ++ out ++ "\n"
           output := some (out, .text (Json.write recordStyle p.toRecord)) })
  | .compile =>
    let out := outputName i "out.sb3"
    let agent := match i.agent with
      | some name => .text name
      | none => .list []
    let params : Parameters := { agent, pretty := i.pretty }
    let c := p.compile params source
    (c.notes, match c.result with
      | .error e => { status := .error (.lowering e) }
      | .ok () =>
        { status := .ok 0, stdout := "Compiled to " ++ out ++ "\n"
          output := some (out, .archive (Project.entries c.state.target params)) })

private def logLines (i : Invocation) (notes : List Note) : List String :=
  if i.verbose then notes.flatMap fun n => n.line.splitOn "\n" else []

def perform (i : Invocation) (file : String) (source : IdSource) (content : ByteArray) : Outcome :=
  match decode? content with
  | none => { status := .error .undecodable }
  | some text =>
    match readSource text with
    | (notes, .error e) =>
      if isReported e then
        { status := .ok 1, stdout := report file text e, log := logLines i notes }
      else { status := .error (.source e), log := logLines i notes }
    | (notes, .ok p) =>
      let (more, o) := execute i source p
      { o with log := logLines i (notes ++ more) }

/-- The command on a file system. If the file cannot be written nothing is printed. -/
def run (fs : FileSystem σ) (pack : List Entry → ByteArray) (i : Invocation) (source : IdSource)
    (s : σ) : Outcome × σ :=
  match i.file with
  | none => ({ status := .error (.file .unnamed) }, s)
  | some file =>
    match fs.read s file with
    | .error e => ({ status := .error (.file e) }, s)
    | .ok content =>
      let o := perform i file source content
      match o.output with
      | none => (o, s)
      | some (name, output) =>
        match fs.write s name (output.bytes pack) with
        | (.ok (), s) => (o, s)
        | (.error e, s) => ({ status := .error (.file e), log := o.log }, s)

end Command

end Lia
