import JsonSieve.Stream.Session

/-!
# Holding output back

A program does not pass every document on by itself. It holds back what a run has
written until there is enough of it (`bufferSize`), and it passes on the rest when
the run is over, whether it came to its end or was stopped. The sink of a session
is what holds output back: passing it on drains the sink.

## Main declarations

* `JsonSieve.Sieve.relay` – what happens when a piece of the input arrives;
* `JsonSieve.Sieve.relayAll` – a whole run, and all that was passed on in it.
-/

namespace JsonSieve

/-- How many bytes are passed on before the run is over; fewer are held back. -/
def bufferSize : Nat := 8192

/-- What is passed on between two pieces of the input, and the session after that. -/
def Session.release (s : Session) : Array UInt8 × Session :=
  if s.sink.accepted.size < bufferSize then (#[], s)
  else
    let (output, sink) := s.sink.drain
    (output, { s with sink })

namespace Sieve

/-- Takes the next piece of the input. The answer holds what is passed on then, which is
everything if the run is stopped. -/
def relay (sieve : Sieve) (s : Session) (piece : List UInt8) :
    Array UInt8 × Except StreamError Session :=
  match sieve.feed s piece with
  | .error stop => (stop.sink.accepted, .error stop.error)
  | .ok s =>
    let (output, s) := s.release
    (output, .ok s)

/-- Takes all pieces of the input. The output is what is passed on, from the first piece to
the end. -/
def relayAll (sieve : Sieve) (s : Session) : List (List UInt8) → Outcome
  | [] => sieve.close s
  | piece :: rest =>
    match sieve.relay s piece with
    | (output, .error e) => ⟨.error e, output⟩
    | (output, .ok s) =>
      let later := sieve.relayAll s rest
      ⟨later.result, output ++ later.output⟩

end Sieve

end JsonSieve
