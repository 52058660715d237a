import RubyTokens.Command.Survey

/-! The program. `count ROOT …` surveys the files below a directory, whose names are given on the
standard input, one on a line; any other command line asks for a listing. Only the files that a
command may need are read, and all decisions are made by the pure commands. -/

namespace RubyTokens.Program

def fileErrorOf : IO.Error → FileError
  | .inappropriateType .. => .isDirectory
  | .alreadyExists .. => .inTheWay
  | .invalidArgument .. => .notADirectory
  | _ => .missing

/-- Reads a file, or says why it cannot be read. -/
def readFile (path : String) : IO (Except FileError String) := do
  try
    return .ok (← IO.FS.readFile path)
  catch e => return .error (fileErrorOf e)

def fail (message : String) (code : UInt32) : IO UInt32 := do
  IO.eprintln message
  return code

/-- Lists the tokens of one source. -/
def list (request : ListingRequest) : IO UInt32 := do
  let source ← readFile request.source.text
  let dump ← match request.dump with
    | some dump => readFile dump.text
    | none => pure (.error .missing)
  match request.listing fun p => if p = request.source then source else dump with
  | .error e => fail e.message 1
  | .ok listing =>
    if request.verbose then
      for line in listing.eventLines do IO.eprintln line
    match request.output with
    | none => IO.println listing.printed
    | some none => return ← fail NeededPlace.output.vacantMessage 1
    | some (some output) =>
      IO.FS.createDirAll { output with parts := output.parts.dropLast }.text
      IO.FS.writeFile output.text listing.written
      IO.println (listing.receipt output)
    return 0

/-- The lines of the standard input. -/
partial def inputLines (stdin : IO.FS.Stream) (lines : Array String) : IO (Array String) := do
  let line ← stdin.getLine
  if line.isEmpty then return lines
  inputLines stdin (lines.push (chomp line).toString)

/-- Surveys the files named on the standard input. -/
def survey (request : SurveyRequest) : IO UInt32 := do
  let names ← inputLines (← IO.getStdin) #[]
  let mut files : List (List String × String) := []
  for name in names do
    if let .ok text ← readFile name then
      files := ((Path.ofString name).parts, text) :: files
  match request.answer ⟨files⟩ with
  | .error e => fail e.message 1
  | .ok (.refused reason) => fail reason 1
  | .ok (.counted lines) =>
    for line in lines do IO.println line
    return 0

def usage : String :=
  "usage: SOURCE DUMP [--output FILE] [--profile NAME] [--verbose], or count ROOT"

end RubyTokens.Program

open RubyTokens RubyTokens.Program in
def main (args : List String) : IO UInt32 := do
  match args with
  | "count" :: rest =>
    match SurveyRequest.ofArguments rest with
    | .error _ => fail usage 2
    | .ok none => IO.println usage; return 0
    | .ok (some request) => survey request
  | _ =>
    match ListingRequest.ofArguments args with
    | .error _ => fail usage 2
    | .ok none => IO.println usage; return 0
    | .ok (some request) => list request
