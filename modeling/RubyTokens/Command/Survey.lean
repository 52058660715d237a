import RubyTokens.Command.Listing

/-! The command that converts all sources below a directory which have a dump beside them, a given
number of times, and counts files, lexemes and tokens. The sources are taken in the order of their
paths, component by component. Every run gives the same counts, so one is made. -/

namespace RubyTokens

/-- A request for a survey, with the runs that count and the runs before them. The numbers are
missing where their places were left vacant. -/
structure SurveyRequest where
  root : Path
  runs : Option Int
  warmups : Option Int
  deriving DecidableEq, Repr

/-- A survey refuses a root without anything to convert. -/
inductive SurveyAnswer where
  | refused (reason : String)
  | counted (lines : List String)
  deriving DecidableEq, Repr

namespace SurveyRequest

def integer? (s : String) : Option Int :=
  match readInteger 10 s.toList with
  | .ok n => some n
  | .error _ => none

def options : List CommandOption :=
  [⟨"--runs", some fun v => (integer? v).isSome⟩, ⟨"--warmups", some fun v => (integer? v).isSome⟩,
    ⟨"--no-progress", none⟩]

/-- The request of a command line; none if it asks for help. -/
def ofArguments (args : List String) : Except UsageError (Option SurveyRequest) := do
  match ← CommandLine.read options 1 args with
  | .ready [some root] settings =>
    return some {
      root := .ofString root
      runs := (settings.lookup "--runs").elim (some 5) (·.bind integer?)
      warmups := (settings.lookup "--warmups").elim (some 1) (·.bind integer?) }
  | _ => return none

/-- The order of names, character by character. -/
def nameBefore (a b : String) : Bool := a.toList.lex b.toList fun c d => c.toNat.blt d.toNat

/-- The order of paths, component by component. -/
def inOrder (a b : List String) : Bool := !b.lex a nameBefore

def isSourceName (name : String) : Bool := ".rb".toList.isSuffixOf name.toList

/-- The dump beside a source. -/
def dumpOf (source : List String) : List String :=
  source.dropLast ++ [source.getLastD "" ++ ".json"]

/-- The sources below the root, in order. -/
def sourceNames (r : SurveyRequest) (tree : FileTree) : List (List String) :=
  match tree.walk {} r.root.parts with
  | .error _ => []
  | .ok directory =>
    let names := (tree.namesBelow directory).filter fun parts => isSourceName (parts.getLastD "")
    names.mergeSort inOrder

/-- The job of a source, if it has a dump beside it. -/
def job? (r : SurveyRequest) (tree : FileTree) (name : List String) :
    Except CommandError (Option Job) := do
  let dump := r.root.below (dumpOf name)
  match tree.lookup dump with
  | .ok (.file _) =>
    let source ← readSource tree.read (r.root.below name)
    let lexemes ← readDump tree.read dump
    return some { source, lexemes }
  | .error .longName => throw (.file .longName)
  | _ => return none

/-- The jobs of all sources, whose files are read before the first is converted. -/
def jobs (r : SurveyRequest) (tree : FileTree) : List (List String) → Except CommandError (List Job)
  | [] => .ok []
  | name :: names => do
    let j ← r.job? tree name
    let js ← r.jobs tree names
    return j.toList ++ js

/-- The numbers of lexemes and tokens of all jobs. -/
def count : List Job → Except CommandError (Nat × Nat)
  | [] => .ok (0, 0)
  | j :: js => do
    let (tokens, _) ← j.tokens
    let (lexemeCount, tokenCount) ← count js
    return (j.lexemes.length + lexemeCount, tokens.length + tokenCount)

/-- The counts of all jobs and the numbers of runs. The jobs are converted for the first time in a
run before those that count, if there is one. -/
def counts (r : SurveyRequest) (jobs : List Job) :
    Except CommandError ((Nat × Nat) × Int × Int) := do
  let warmups ← filled .number r.warmups
  if 0 < warmups then
    let total ← count jobs
    return (total, ← filled .number r.runs, warmups)
  else
    let runs ← filled .number r.runs
    return (← count jobs, runs, warmups)

def answer (r : SurveyRequest) (tree : FileTree) : Except CommandError SurveyAnswer := do
  match tree.lookup r.root with
  | .error .longName => throw (.file .longName)
  | .ok .directory =>
    let jobs ← r.jobs tree (r.sourceNames tree)
    if jobs.isEmpty then
      return .refused ("No .rb/.rb.json pairs found under " ++ r.root.text)
    let ((lexemeCount, tokenCount), runs, warmups) ← r.counts jobs
    return .counted [
      "Dataset: " ++ r.root.text,
      s!"Files: {jobs.length}",
      s!"Tokens in/out: {lexemeCount}/{tokenCount}",
      "Runs: " ++ decimal (max runs 1) ++ " (warmups=" ++ decimal (max warmups 0) ++ ")"]
  | _ => return .refused ("Invalid root: " ++ r.root.text)

end SurveyRequest

end RubyTokens
