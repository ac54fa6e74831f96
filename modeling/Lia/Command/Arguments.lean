import Lia.Text.Digit

/-!
# Command line arguments

`Command.read` reads `command file [out]` with options anywhere between. Options have
unambiguous abbreviations, `--` ends them, and the last `--agent` wins. Words fill
places in runs: an output name has to stand in the same run as the file, with no option
between them. The arguments are read from left to right, and the first one that is
wrong or asks for help decides; an argument without a place is refused in the end.
-/

namespace Lia

inductive Command
  | compile
  | ast
  | exportLia
  | format
  deriving DecidableEq

def Command.ofName? : String → Option Command
  | "compile" => some .compile
  | "ast" => some .ast
  | "export-lia" => some .exportLia
  | "format" => some .format
  | _ => none

structure Invocation where
  command : Command
  /-- None if only a separator stands in its place. -/
  file : Option String
  out : Option String
  /-- None if only a separator stands behind the equals sign. -/
  agent : Option String := some "liac"
  pretty : Bool := false
  verbose : Bool := false

namespace Command

-- ---------------------------------------------------------------------------
-- Single arguments
-- ---------------------------------------------------------------------------

/-- The options without a value. -/
inductive Switch
  | help
  | pretty
  | verbose
  deriving DecidableEq

inductive Opt
  | agent
  /-- Short switches can be written together, behind one dash. -/
  | switch (s : Switch) (short : Bool)

def optionNames : List (String × Opt) := [
  ("-h", .switch .help true), ("--help", .switch .help false), ("--agent", .agent),
  ("--pretty", .switch .pretty false), ("--verbose", .switch .verbose false),
  ("-v", .switch .verbose true)]

def Switch.ofLetter? : Char → Option Switch
  | 'h' => some .help
  | 'v' => some .verbose
  | _ => none

/-- What an argument is by its form. -/
inductive Arg
  | word (s : String)
  /-- Behind it every argument is a word. -/
  | separator
  | switches (ss : List Switch)
  /-- The value stands in the next argument. -/
  | agent
  | agentIs (value : String)
  /-- It looks like an option, and there is none of the name. -/
  | unknown
  /-- A switch with a value. -/
  | misused

/-- A text that looks like a negative number. A newline may end it. -/
def isNegative (s : List Char) : Bool :=
  match s with
  | '-' :: s =>
    let s := if s.getLast? = some '\n' then s.dropLast else s
    match s.dropWhile Text.isDecimal with
    | [] => !s.isEmpty
    | '.' :: fraction => !fraction.isEmpty && fraction.all Text.isDecimal
    | _ => false
  | _ => false

def splitEquals (s : String) : String × Option String :=
  let cs := s.toList
  (String.ofList (cs.takeWhile (· ≠ '=')),
    match cs.dropWhile (· ≠ '=') with
    | [] => none
    | _ :: value => some (String.ofList value))

/-- A switch with more letters behind it. -/
def Arg.ofLetters (first : Switch) (more : List Char) : Arg :=
  match more.mapM Switch.ofLetter? with
  | some ss => .switches (first :: ss)
  | none => .misused

/-- An option with what stands behind its equals sign. Letters there belong to a short
switch as if they followed it. -/
def Arg.ofOption : Opt → Option String → Arg
  | .agent, none => .agent
  | .agent, some value => .agentIs value
  | .switch s _, none => .switches [s]
  | .switch s true, some value => if value = "" then .misused else ofLetters s value.toList
  | .switch _ false, some _ => .misused

/-- The options whose long name begins with a text. -/
def abbreviated (start : String) : List Opt :=
  (optionNames.filter fun o => start.toList.isPrefixOf o.1.toList).map Prod.snd

/-- An argument before the separator; none if it abbreviates more than one option. -/
def classify (s : String) : Option Arg :=
  let (name, value) := splitEquals s
  let other := if isNegative s.toList || ' ' ∈ s.toList then Arg.word s else .unknown
  match optionNames.lookup name, s.toList with
  | some o, _ => some (.ofOption o value)
  | none, '-' :: '-' :: _ =>
    match abbreviated name with
    | [o] => some (.ofOption o value)
    | [] => some other
    | _ => none
  | none, '-' :: c :: more =>
    match Switch.ofLetter? c with
    | some first => some (.ofLetters first more)
    | none => some other
  | none, _ => some (.word s)

def classifyAll : List String → Option (List Arg)
  | [] => some []
  | "--" :: rest => some (.separator :: rest.map .word)
  | s :: rest => do
    let arg ← classify s
    let args ← classifyAll rest
    return arg :: args

-- ---------------------------------------------------------------------------
-- Places
-- ---------------------------------------------------------------------------

/-- Words between two options, with none for a separator. -/
abbrev Run := List (Option String)

/-- The word for a place with the separators around it, and what follows. A word that
spells a separator counts as one, unless there is another: only one of them is dropped. -/
def takePlace (run : Run) : Option (Option String × Run) :=
  match run.dropWhile Option.isNone with
  | some word :: rest =>
    let isSeparated := run.head? = some none || rest.head? = some none
    some (if word = "--" && !isSeparated then none else some word, rest.dropWhile Option.isNone)
  | _ => none

/-- The places that words have filled. -/
inductive Places
  | empty
  | command (c : Command)
  | all (c : Command) (file out : Option String)

/-- The file and the output name of a run, and whether anything is left of it. -/
def fillFiles (c : Command) (run : Run) : Places × Bool :=
  match takePlace run with
  | none => (.command c, !run.isEmpty)
  | some (file, run) =>
    match takePlace run with
    | none => (.all c file none, !run.isEmpty)
    | some (out, run) => (.all c file out, !run.isEmpty)

/-- Fills the open places with a run; none if there is no such command. -/
def Places.fill (places : Places) (run : Run) : Option (Places × Bool) :=
  match places with
  | .empty =>
    match takePlace run with
    | none => some (.empty, !run.isEmpty)
    | some (name, run) => do
      let c ← name.bind Command.ofName?
      return fillFiles c run
  | .command c => some (fillFiles c run)
  | .all .. => some (places, !run.isEmpty)

-- ---------------------------------------------------------------------------
-- All arguments
-- ---------------------------------------------------------------------------

inductive Request
  | run (i : Invocation)
  | help
  | rejected

structure Progress where
  places : Places := .empty
  agent : Option String := some "liac"
  pretty : Bool := false
  verbose : Bool := false
  /-- Some argument has no place. -/
  excess : Bool := false

namespace Progress

def close (p : Progress) (run : Run) : Option Progress :=
  (p.places.fill run).map fun (places, excess) => { p with places, excess := p.excess || excess }

def set (p : Progress) : Switch → Progress
  | .help => p
  | .pretty => { p with pretty := true }
  | .verbose => { p with verbose := true }

def request (p : Progress) : Request :=
  match p.places, p.excess with
  | .all command file out, false =>
    .run { command, file, out, agent := p.agent, pretty := p.pretty, verbose := p.verbose }
  | _, _ => .rejected

/-- Reads on, behind the words of a run. -/
def follow (p : Progress) (run : Run) : List Arg → Request
  | [] =>
    match p.close run with
    | some p => p.request
    | none => .rejected
  | .word s :: rest => p.follow (run ++ [some s]) rest
  | .separator :: rest => p.follow (run ++ [none]) rest
  | option :: rest =>
    match p.close run with
    | none => .rejected
    | some p =>
      match option with
      | .switches ss => if .help ∈ ss then .help else (ss.foldl set p).follow [] rest
      | .agentIs value =>
        { p with agent := if value = "--" then none else some value }.follow [] rest
      | .agent =>
        match rest with
        | .word value :: rest => { p with agent := some value }.follow [] rest
        | _ => .rejected
      | .unknown => { p with excess := true }.follow [] rest
      | _ => .rejected

end Progress

/-- What a rejected command line is answered with. -/
def usage : String :=
  "usage: liac [-h] [--agent AGENT] [--pretty] [--verbose] " ++
    "\x7bcompile,ast,export-lia,format\x7d file [out]\n"

def read (argv : List String) : Request :=
  match classifyAll argv with
  | none => .rejected
  | some args => Progress.follow {} [] args

end Command

end Lia
