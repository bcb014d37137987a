import PrefixMatching.Bytes
import PrefixMatching.Log.Timestamp
import PrefixMatching.Utf8.Sanitize

/-!
# Log lines

A message is logged as one line that begins with a time stamp. Data that comes from outside is
sanitized before it becomes part of a message.
-/

namespace PrefixMatching
namespace Log

/-- The line that logs a message. -/
def line (stamp message : Bytes) : Bytes := stamp ++ ascii " " ++ message ++ ascii "\n"

/-- The time stamp of an instant, which stands for an unknown time if the instant has no text. -/
def stamp (arithmetic : SignedArithmetic) (ns : Int) : Bytes :=
  (Timestamp.format? arithmetic ns).getD (ascii "<unknown time>")

/-- Logs a message now, where the clock counts nanoseconds since 1970-01-01T00:00:00Z. -/
def write {m : Type → Type} [Monad m] (arithmetic : SignedArithmetic) (now : m Int)
    (put : Bytes → m Unit) (message : Bytes) : m Unit := do
  put (line (stamp arithmetic (← now)) message)

/-- A message about data that comes from outside. -/
def untrusted (label data : Bytes) : Bytes := label ++ Utf8.sanitize data

end Log
end PrefixMatching
