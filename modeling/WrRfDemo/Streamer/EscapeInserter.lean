import WrRfDemo.Clocked.Run

/-! # The escape inserter

An escaped word is sent as the escape code and then the word, and a plain word that looks like
the escape code as the code and then zero. The request to the sender falls while a word that
takes two cycles is presented, whether insertion is enabled or not.
-/

namespace WrRfDemo.Streamer

def escapeCode : BitVec 16 := 0xcafe

structure InserterIn where
  rstN : Bool
  d : BitVec 16
  dInsertEnable : Bool
  dEscape : Bool
  dValid : Bool
  dReq : Bool
deriving DecidableEq

inductive InserterState
  | idle | insertEscape
deriving DecidableEq

structure EscapeInserter where
  state : InserterState
  dPrev : BitVec 16
  dReqPrev : Bool
deriving DecidableEq

namespace InserterIn

/-- The presented word takes two cycles. -/
def twoWords (i : InserterIn) : Bool := i.dValid && (i.dEscape || i.d == escapeCode)

def dReqO (i : InserterIn) : Bool := i.dReq && !i.twoWords

end InserterIn

namespace EscapeInserter

def dO (i : InserterIn) (s : EscapeInserter) : BitVec 16 :=
  if s.state = .insertEscape then s.dPrev
  else if i.dEscape then escapeCode
  else i.d

def dValidO (i : InserterIn) (s : EscapeInserter) : Bool :=
  if s.state = .idle then i.dValid else s.dReqPrev

def pFsm (i : InserterIn) (s : EscapeInserter) : EscapeInserter :=
  if !i.rstN || !i.dInsertEnable then { s with state := .idle, dReqPrev := false }
  else
    let next := { s with dReqPrev := i.dReq }
    match s.state with
    | .idle =>
      if i.d = escapeCode ∧ i.dValid = true ∧ i.dEscape = false then
        { next with state := .insertEscape, dPrev := 0 }
      else if i.dEscape = true ∧ i.dValid = true then { next with state := .insertEscape, dPrev := i.d }
      else next
    | .insertEscape => if s.dReqPrev then { next with state := .idle } else next

end EscapeInserter

end WrRfDemo.Streamer
