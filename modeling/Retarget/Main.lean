import Retarget.CommandLine.Needs

/-!
# The program

The outer layer: it reads the files that a run may look at, runs the command line on them, and
prints and writes what the run says.
-/

namespace Retarget.CommandLine

open UsualMachine

/-- The places that have been looked at, with what stands there. -/
abbrev Seen := List (List String × Option Node)

/-- The file tree of what has been seen. -/
def treeOfSeen (seen : Seen) (workingDirectory home : Path) : FileTree where
  node place := ((seen.find? (·.1 == place)).map Prod.snd).join
  workingDirectory := workingDirectory
  homeOf user :=
    if user = "" then some home else if user = "root" then some ⟨.top, ["root"]⟩ else none

/-- Looks at a place: what can be opened and read is a file, what can only be opened a directory. -/
def look (place : List String) : IO (Option Node) := do
  let path := "/" ++ "/".intercalate place
  let handle? ← try some <$> IO.FS.Handle.mk path .read catch _ => pure none
  match handle? with
  | none => return none
  | some handle =>
    try
      return some (.file (← handle.readBinToEnd).toList)
    catch _ => return some .directory

/-- Looks at the places on the way of paths, and of the paths that the sources found there name. -/
partial def gather (search? : Option Search) (workingDirectory home : Path) (seen : Seen)
    (paths : List Path) : IO Seen := do
  match paths with
  | [] => return seen
  | path :: rest =>
    let mut seen := seen
    let mut new := false
    for place in placesOf workingDirectory path do
      unless seen.any (·.1 == place) do
        seen := (place, ← look place) :: seen
        new := true
    let tree := treeOfSeen seen workingDirectory home
    match search?, new, tree.readText path with
    | some search, true, .ok text =>
      let named := (references text).flatMap (pathsOf search tree)
      gather search? workingDirectory home seen (named ++ rest)
    | _, _, _ => gather search? workingDirectory home seen rest

/-- Answers the lines that are typed, until one leaves the session. -/
partial def converse (search : Search) (workingDirectory home : Path) (seen : Seen)
    (session : Session) : IO UInt32 := do
  let stdout ← IO.getStdout
  stdout.putStr "asm> "
  stdout.flush
  let line ← (← IO.getStdin).getLine
  if line.isEmpty then
    stdout.putStr Printed.ended.text
    return 0
  let paths := (references line).flatMap
    (pathsOf search (treeOfSeen seen workingDirectory home))
  let seen ← gather (some search) workingDirectory home seen paths
  let library := search.library (treeOfSeen seen workingDirectory home)
  let reply := session.handle (some library) line
  stdout.putStr (String.join (reply.printed.map Printed.text))
  match reply.result with
  | .ok true => converse search workingDirectory home seen reply.session
  | .ok false => return 0
  | .error fault =>
    (← IO.getStderr).putStrLn fault.message
    return 1

/-- Prints and writes an outcome. -/
def perform (outcome : Outcome) : IO UInt32 := do
  (← IO.getStdout).putStr outcome.stdout
  (← IO.getStderr).putStr outcome.stderr
  if let some written := outcome.written then
    IO.FS.writeBinFile ("/" ++ "/".intercalate written.place) ⟨written.bytes.toArray⟩
  match outcome.ending with
  | .code n | .usage n => return UInt32.ofNat n
  | .fault fault =>
    (← IO.getStderr).putStrLn fault.message
    return 1

end Retarget.CommandLine

open Retarget Retarget.CommandLine Retarget.UsualMachine in
/-- Runs the program. -/
def main (arguments : List String) : IO UInt32 := do
  let workingDirectory := Path.parse (toString (← IO.currentDir))
  let home := Path.parse ((← IO.getEnv "HOME").getD "/")
  let searchPath := (← IO.getEnv "SPECASM_PATH").getD ""
  let logLevel := (← IO.getEnv "SPECASM_LOG").getD "WARNING"
  let nothing := treeOfSeen [] workingDirectory home
  let first := firstPaths { tree := nothing, searchPath } arguments
  let seen ← gather (first.map Prod.fst) workingDirectory home [] ((first.map Prod.snd).getD [])
  let tree := treeOfSeen seen workingDirectory home
  match plan { tree, searchPath, logLevel } arguments, first with
  | .session _ session, some (search, _) => converse search workingDirectory home seen session
  | .session .., none => return 0
  | .finished outcome, _ => perform outcome
