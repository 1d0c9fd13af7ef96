import GameCatalog.CommandLine.Run

/-!
# The program

The outer layer: it reads the files that a run may ask for into a disk, performs the run
and writes what the run says.  The explorer is run line by line, with the files read
again before each line.
-/

namespace GameCatalog
namespace CommandLine

def write (outputs : List Output) : IO Unit := do
  for output in outputs do
    match output with
    | .standard text => (← IO.getStdout).putStr text
    | .error text => (← IO.getStderr).putStr text
  (← IO.getStdout).flush

/-- The file or directory at a path, without what cannot be read. -/
partial def snapshot (path : String) : IO (Option FileTree) := do
  try
    let place := (← IO.currentDir) / path
    if ← place.isDir then
      let mut entries := #[]
      for entry in ← place.readDir do
        if let some tree ← snapshot (Disk.join path entry.fileName) then
          entries := entries.push (entry.fileName, tree)
      return some (.directory entries.toList)
    else
      return some (.file (← IO.FS.readBinFile place))
  catch _ => return none

/-- The disk with what is at a path. -/
def withPath (disk : Disk) (path : String) : IO Disk := do
  match ← snapshot path with
  | some tree => return disk.put path tree
  | none => return disk

/-- A disk without files, with the directory that the program was started in. -/
def bareDisk : IO Disk := do
  let bare : Disk := ⟨.empty, []⟩
  return { bare with working := bare.location (← IO.currentDir).toString }

/-- A word from the machine's own randomness. -/
def randomWord : IO UInt64 := do
  return (← IO.getRandomBytes 8).foldl (fun word byte => word * 256 + byte.toUInt64) 0

/-- The bytes up to the next line feed, which is the last of them. -/
partial def readLine (input : IO.FS.Stream) (bytes : ByteArray) : IO ByteArray := do
  let next ← input.read 1
  if next.isEmpty then return bytes
  else if next[0]? == some 10 then return bytes ++ next
  else readLine input (bytes ++ next)

def prompt (input : IO.FS.Stream) : IO Unit := do
  if ← input.isTty then
    write [.standard ("\x1b[1;36m" ++ Conversation.defaultPrompt ++ "\x1b[0m")]

/-- Holds a conversation over standard input. -/
partial def converse (settings : Settings) (session : Session) (pending : String) :
    IO UInt32 := do
  let input ← IO.getStdin
  prompt input
  let bytes ← readLine input .empty
  if bytes.isEmpty then
    write [Conversation.farewell]
    return 0
  match String.fromUTF8? bytes with
  | none =>
      write [.ofFault Conversation.undecodable]
      return 1
  | some line =>
      let text := pending ++ Lines.withoutBreak line
      if Lines.isOpen text then
        converse settings session (pending ++ line)
      else
        let disk ← withPath (← bareDisk) settings.dataRoot
        match (session.withSource (settings.folder disk).source).respond text with
        | (.left, _) =>
            write [Conversation.farewell]
            return 0
        | (response, session) =>
            write response.outputs
            converse settings session ""

def start (invocation : Invocation) : IO UInt32 := do
  let bare ← withPath (← bareDisk) (invocation.config.getD settingsFile)
  match settings invocation bare (← IO.getEnv "REALMFORGE_DATA_ROOT") with
  | .error fault =>
      write [.ofFault fault]
      return 1
  | .ok settings =>
      let disk ← withPath bare settings.dataRoot
      let session := settings.session disk (← randomWord)
      if invocation.task = .explore then
        write Conversation.banner
        converse settings session ""
      else
        let outcome := perform invocation.task .empty session
        write outcome.outputs
        return outcome.code.toUInt32

end CommandLine
end GameCatalog

def main (arguments : List String) : IO UInt32 :=
  match GameCatalog.CommandLine.parse arguments with
  | .ok invocation => GameCatalog.CommandLine.start invocation
  | .error refusal => do
      let outcome := GameCatalog.CommandLine.refused refusal
      GameCatalog.CommandLine.write outcome.outputs
      return outcome.code.toUInt32
