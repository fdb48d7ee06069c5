import Baseboard.Transport

/-!
# Baseboard.Transport.Script

A transport that needs no controller: it answers requests from a script and
keeps a record of what it was asked.  When the script has run out, requests fail
and signals succeed.
-/

namespace Baseboard

/-- One thing that a script was asked for. -/
inductive Script.Entry where
  | signal (signal : Signal)
  | request (request : Request)
  deriving DecidableEq, Repr

/-- The outcomes still to come, and what was asked so far, in order. -/
structure Script where
  replies : List (Except Failure Response)
  signals : List (Except Failure Unit)
  asked : List Script.Entry

namespace Script

/-- A script from which nothing was asked yet. -/
def start (replies : List (Except Failure Response)) (signals : List (Except Failure Unit)) :
    Script := ⟨replies, signals, []⟩

/-- Record a request and take the next reply. -/
def reply (request : Request) (s : Script) : Except Failure Response × Script :=
  let asked := s.asked ++ [.request request]
  match s.replies with
  | [] => (.error (.protocol "no scripted reply left"), { s with asked })
  | outcome :: rest => (outcome, { s with replies := rest, asked })

/-- Record a signal and take its outcome. -/
def acknowledge (signal : Signal) (s : Script) : Except Failure Unit × Script :=
  let asked := s.asked ++ [.signal signal]
  match s.signals with
  | [] => (.ok (), { s with asked })
  | outcome :: rest => (outcome, { s with signals := rest, asked })

/-- The transport that follows a script. -/
def transport : Transport Script where
  send := reply
  signal := acknowledge

end Script

end Baseboard
