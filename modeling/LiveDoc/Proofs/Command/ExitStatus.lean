import LiveDoc.Proofs.Command.DocumentStatus

/-!
The exit code of a command. A document is treated in the state that those before it have left,
whatever became of them; the code is zero if every one of them succeeds in its turn, and an output
that is refused is only the failure of the document it belongs to. What is told of a document that
is only read, and of what has ended the command, must not be refused, or the command is broken off.
-/
namespace LiveDoc.Command

open Outcome

variable {σ : Type} (sys : System (StateM σ)) (rounds : Nat) (mode : Mode)

/-! ### One document after the other -/

variable {sys rounds mode} {P : Nat → Input → Destination → σ → Prop} {plan : Plan} {fileId : Nat}
  {i : Input} {target : Destination} {s : σ} {e : Trouble}

variable (sys rounds)

variable {sys rounds} {r : Request} {start : σ}

end LiveDoc.Command
