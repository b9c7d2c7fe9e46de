import OfdmBurst.Fault
import OfdmBurst.Frame.Message
import OfdmBurst.Settings

/-!
# Message queues

Messages leave a queue in the order they came. A queue with a limit refuses messages while it holds
that many; the limit zero stands for none. A queue with a limit keeps a place for every message it
may hold, so there is no queue with a limit beyond all buffers.
-/

namespace OfdmBurst

/-- Messages waiting to be taken, the oldest first. -/
structure MessageQueue where
  limit : Nat := 0
  messages : List Message := []

namespace MessageQueue

/-- One past the largest limit. A message takes up less than 32 times the place of a scalar. -/
def limitBound : Nat := bufferLimit / 32

/-- An empty queue with a limit. -/
def ofLimit (limit : Nat) : Except Fault MessageQueue :=
  if limit < limitBound then .ok { limit } else .error .overflow

/-- An empty queue with the limit that is set for new queues. -/
def standard (s : Settings) : Except Fault MessageQueue := ofLimit s.queueLimit

/-- The number of waiting messages. -/
def size (q : MessageQueue) : Nat := q.messages.length

/-- Whether the queue holds as many messages as it may. -/
def isFull (q : MessageQueue) : Bool := q.limit != 0 && q.limit ≤ q.size

/-- Put a message at the end, unless the queue is full. -/
def enqueue? (q : MessageQueue) (m : Message) : Option MessageQueue :=
  if q.isFull then none else some { q with messages := q.messages ++ [m] }

/-- Take the message at the front. -/
def dequeue? (q : MessageQueue) : Option (Message × MessageQueue) :=
  match q.messages with
  | [] => none
  | m :: rest => some (m, { q with messages := rest })

/-- The number of messages and the limit, as a text. -/
def summary (q : MessageQueue) : String :=
  s!"MsgQueue \x7b len: {q.size}, limit: {q.limit} \x7d"

theorem messages_dequeue? {q r : MessageQueue} {m : Message} (h : q.dequeue? = some (m, r)) :
    q.messages = m :: r.messages ∧ r.limit = q.limit := by
  rw [dequeue?] at h
  split at h
  · cases h
  next heq =>
    cases h
    exact ⟨heq, rfl⟩

theorem messages_enqueue? {q r : MessageQueue} {m : Message} (h : q.enqueue? m = some r) :
    r.messages = q.messages ++ [m] ∧ r.limit = q.limit := by
  unfold enqueue? at h
  split at h
  · simp at h
  · simp at h; subst h; exact ⟨rfl, rfl⟩

end MessageQueue

end OfdmBurst
