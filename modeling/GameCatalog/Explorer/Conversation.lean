import GameCatalog.Explorer.Answer
import GameCatalog.Explorer.Lines
import GameCatalog.Output

/-!
# Conversations

The explorer reads a line, answers it and reads the next one, until it is told to quit,
input ends or a line cannot be read.  Blank lines and interruptions are passed over; a
fault is reported and the conversation goes on.
-/

namespace GameCatalog

/-- What a line brings about. -/
inductive Response where
  | skipped
  | left
  | answered (answer : Except Fault String)

namespace Response

def outputs : Response → List Output
  | answered (.ok text) => [.standardLine text]
  | answered (.error fault) => [.ofFault fault]
  | _ => []

end Response

/-- The response to a line, and the session after it. -/
def Session.respond (session : Session) (line : String) : Response × Session :=
  if line.toList.all Text.isBlank then (.skipped, session)
  else
    match Command.parse line with
    | .ok .quit => (.left, session)
    | .ok command =>
        let (answer, session) := session.answer command
        (.answered answer, session)
    | .error fault => (.answered (.error fault), session)

/-- What was written and remembered in a conversation, how often a line was asked for,
and the fault that ended it, if one did. -/
structure Conversation where
  outputs : List Output
  history : List String
  readings : Nat
  fault : Option Fault

namespace Conversation

def version : String := "0.1.0"

def banner : List Output := [
  .standardLine ("\x1b[1;36mrealmforge explorer v" ++ version ++ "\x1b[0m"),
  .standardLine "Type a reference to resolve it, :help for commands, Ctrl+D to exit.\n"]

def defaultPrompt : String := "realm> "

def farewell : Output := .standardLine "\nGoodbye!"

def undecodable : Fault := .broken "line editor: stream did not contain valid UTF-8"

/-- The last reading of a conversation that ends well. -/
def ended (history : List String) : Conversation where
  outputs := [farewell]
  history := history
  readings := 1
  fault := none

def broken (fault : Fault) : Conversation where
  outputs := []
  history := []
  readings := 1
  fault := some fault

/-- One more reading before the conversation goes on. -/
def after (outputs : List Output) (history : List String) (rest : Conversation) :
    Conversation where
  outputs := outputs ++ rest.outputs
  history := history ++ rest.history
  readings := rest.readings + 1
  fault := rest.fault

/-- Holds the conversation over what reading brings, and gives the session after it. -/
def hold : List Intake → Session → Conversation × Session
  | [], session => (ended [], session)
  | .interrupted :: rest, session =>
      let (conversation, session) := hold rest session
      (conversation.after [] [], session)
  | .undecodable :: _, session => (broken undecodable, session)
  | .line line :: rest, session =>
      match session.respond line with
      | (.skipped, session) =>
          let (conversation, session) := hold rest session
          (conversation.after [] [], session)
      | (.left, session) => (ended [line], session)
      | (response, session) =>
          let (conversation, session) := hold rest session
          (conversation.after response.outputs [line], session)

end Conversation
end GameCatalog
