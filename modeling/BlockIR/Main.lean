import BlockIR.Command
import BlockIR.Number.Elapsed

namespace BlockIR.Main

def readCause : IO.Error → ReadCause
  | .noFileOrDirectory .. => .missing
  | .inappropriateType _ code _ => if code = 21 || code = 0 - 21 then .isDirectory else .notDirectory
  | .invalidArgument _ code _ => if code = 36 || code = 0 - 36 then .tooLong else .invalid
  | e => .other (toString e)

def readFile (path : String) : IO (Except ReadFault Text) := do
  try
    let bytes ← IO.FS.readBinFile path
    return .ok (.ofBytes bytes.toList)
  catch e => return .error ⟨path, readCause e⟩

partial def readAll (input : IO.FS.Stream) (bytes : ByteArray) : IO ByteArray := do
  let more ← input.read 65536
  if more.isEmpty then return bytes else readAll input (bytes ++ more)

def readInput : IO Text := do
  let bytes ← readAll (← IO.getStdin) .empty
  return .ofBytes bytes.toList

def wantsColour : IO Bool := do
  return (← (← IO.getStdout).isTty) && (← IO.getEnv "NO_COLOR").isNone

partial def converse (colour : Bool) (s : Repl.State) : IO Unit := do
  let raw ← (← IO.getStdin).getLine
  if raw.isEmpty then return ()
  let cs := raw.toList
  match Repl.line? (if cs.getLast? = some '\n' then cs.dropLast else cs) with
  | none => return ()
  | some line =>
    let (out, s) := s.answer colour line
    IO.print out
    (← IO.getStdout).flush
    converse colour s

def write (o : Command.Outcome) : IO UInt32 := do
  IO.print o.stdout
  IO.eprint o.stderr
  return .ofNat o.exit

def perform (a : Action) (o : Command.Options) (name : String) (source : IO (Except ReadFault Text)) :
    IO UInt32 := do
  let colour ← wantsColour
  let started ← IO.monoNanosNow
  match ← source with
  | .error e => write (.ofFault a (.unread name e))
  | .ok text =>
    let result ← IO.lazyPure fun _ => Command.decode o name text
    let elapsed := Elapsed.mk (.ofNat ((← IO.monoNanosNow) - started))
    write (Command.finish colour elapsed.display a o name text result)

end BlockIR.Main

open BlockIR BlockIR.Main in
def main (args : List String) : IO UInt32 := do
  match Command.request args with
  | .error outcome => write outcome
  | .ok .nothing => return 0
  | .ok (.action .repl _) =>
    IO.print (Command.banner ++ Repl.prompt)
    (← IO.getStdout).flush
    converse (← wantsColour) {}
    return 0
  | .ok (.action a o) =>
    match o.input with
    | .standard => perform a o Command.standardName (.ok <$> readInput)
    | .file path => perform a o path (readFile path)
    | .tooMany count => write (.ofFault a (.tooManyFiles count))
