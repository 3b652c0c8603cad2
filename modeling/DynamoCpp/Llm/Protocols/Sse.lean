import DynamoCpp.Basic

/-! # Server-sent events

    The messages of an event stream and their text, as the HTTP frontend writes them.
-/

namespace DynamoCpp.Llm

structure SseMessage where
  id       : Option Bytes := none
  event    : Option Bytes := none
  data     : Option Bytes := none
  comments : Option (List Bytes) := none
  deriving DecidableEq

/-- A line with a name in front. -/
def sseLine (name value : Bytes) : Bytes := name ++ value ++ str "\n"

/-- The text of a message.  Each line of the data is a line of its own. -/
def encodeSse (message : SseMessage) : Bytes :=
  (message.comments.getD []).flatMap (sseLine (str ": ")) ++
    (message.id.toList.flatMap (sseLine (str "id: "))) ++
    (message.event.toList.flatMap (sseLine (str "event: "))) ++
    (message.data.toList.flatMap fun data =>
      (data.splitOn '\n'.toUInt8).flatMap (sseLine (str "data: "))) ++
    str "\n"

def encodeSseDone : Bytes := str "data: [DONE]\n\n"

end DynamoCpp.Llm
