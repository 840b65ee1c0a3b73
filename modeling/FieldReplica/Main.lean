import FieldReplica.Console.Run

/-!
# The program

Gathers what a command finds around it, carries the command out, and copies what it prints. The program has no
way to a network of its own: a command that needs the API finds nobody there.
-/
open FieldReplica Console

/-- The content of a file, or why it cannot be read. -/
def readContent (path : String) : IO (Except FileFault (List UInt8)) := do
  try
    return .ok (← IO.FS.readBinFile path).toList
  catch
    | .noFileOrDirectory .. => return .error .notFound
    | _ => return .error .isDirectory

/-- The files that a command may read, each by its path. -/
def readFiles (paths : List String) : IO (List (String × Except FileFault (List UInt8))) :=
  paths.mapM fun path => do return (path, ← readContent path)

/-- A key of random hexadecimal digits in the form of a random UUID. -/
def randomKey : IO String := do
  let digits ← (List.range 32).mapM fun i => do
    let n ← IO.rand 0 15
    return Nat.digitChar (if i = 12 then 4 else if i = 16 then 8 + n % 4 else n)
  let part := fun (start length : Nat) => String.ofList ((digits.drop start).take length)
  return String.intercalate "-" [part 0 8, part 8 4, part 12 4, part 16 4, part 20 12]

def main (args : List String) : IO UInt32 := do
  let home := (← IO.getEnv "HOME").getD ""
  let named := match Arguments.parse args with
    | .ok (.configShow (some file) _) => [file]
    | _ => []
  let files ← readFiles ((home ++ "/" ++ Settings.path) :: named)
  let env : Environment :=
    { home := home
      read := fun path => ((files.find? (·.1 = path)).map (·.2)).getD (.error .notFound)
      token := ← IO.getEnv "FIELDSYNC_TOKEN"
      stdoutTerminal := ← (← IO.getStdout).isTty
      stderrTerminal := ← (← IO.getStderr).isTty
      network := .unreachable
      freshKey := ← randomKey
      now := .start
      patience := 100000 }
  match env.invoke args with
  | some t =>
    (← IO.getStdout).putStr t.stdout
    (← IO.getStderr).putStr t.stderr
    return UInt32.ofNat t.status.code
  | none =>
    (← IO.getStderr).putStr "error: the project did not finish syncing\n"
    return UInt32.ofNat ExitStatus.network.code
