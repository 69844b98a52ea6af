import Libftpp.DataBufferFifo
import Libftpp.Link

/-! Typed values from one end of a connection to the other. What the sender puts
into a message with `operator<<` comes out of it with `operator>>` in the first
action that is given it, type by type and value by value, and nothing is left. -/
namespace Libftpp
open Program World StreamDecoding

namespace Message
variable [Platform]

end Message

section Values
variable [Platform]

end Values

section Witness

attribute [local instance] Platform.littleEndian

end Witness

end Libftpp
