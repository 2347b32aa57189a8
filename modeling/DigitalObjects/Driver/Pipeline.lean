import DigitalObjects.Driver.Chain
import Mathlib.Logic.Function.Basic
set_option autoImplicit false

/-!
The driver's transaction pipeline over one object store, with the relayer and the chain.
Every operation is cut into the steps at which another thread, the relayer, the chain or a
crash may come in between. Steps under the store lock wait while `record` holds it.
-/

namespace DigitalObjects.Driver

open Txlib

variable {H : Type} [DecidableEq H]

inductive TransactionState where
  | recorded
  | submitted
  | landed
  | expired
deriving DecidableEq, Repr

def TransactionState.isTerminal : TransactionState → Bool
  | .landed | .expired => true
  | .recorded | .submitted => false

inductive ExpiryReason where
  | rejected (block : Int) (error : Rejection)
  | agedOut (groundingBlock head : Int)
deriving DecidableEq, Repr

structure TransactionRecord where
  state : TransactionState
  groundingBlock : Int
  submitAttempted : Bool
  reason : Option ExpiryReason
deriving DecidableEq, Repr

namespace TransactionRecord

def recorded (groundingBlock : Int) : TransactionRecord := ⟨.recorded, groundingBlock, false, none⟩

def isOpen (r : TransactionRecord) : Bool := !r.state.isTerminal

/-- The relayer may hold the payload once a submission was attempted. -/
def needsTxStatus (r : TransactionRecord) : Bool :=
  r.isOpen && (r.submitAttempted || r.state = .submitted)

end TransactionRecord

/-- Where a running `submit` stands: after its read of the record, the head check, its read
of the payload, the first `update_record`, and the answer of the relayer. -/
inductive SubmitStep (H : Type) where
  | read (groundingBlock : Int)
  | checked
  | loaded (p : Payload H)
  | attempted (p : Payload H)
  | accepted
deriving DecidableEq, Repr

/-- What a running `settle_with` has read: records, then the head, then statuses. -/
structure Settlement (H : Type) where
  queried : H → Bool
  needs : H → Bool
  head : Option Int
  statuses : H → Option (Option (Entry H))

def Settlement.start : Settlement H := ⟨fun _ => false, fun _ => false, none, fun _ => none⟩

/-- The decision of `settle_with` about one open record. -/
def settleRecord (head : Int) (status : Option (Entry H)) (r : TransactionRecord) :
    TransactionRecord :=
  match status with
  | some e => match e.error with
    | none => { r with state := .landed }
    | some error => { r with state := .expired, reason := some (.rejected e.block error) }
  | none =>
    if groundingAgedOut head r.groundingBlock then
      { r with state := .expired, reason := some (.agedOut r.groundingBlock head) }
    else r

inductive RelayerResult where
  | accepted
  | responseLost
  | unavailable
deriving DecidableEq, Repr

/-- `relayer` lists the payloads handed to the relayer, `recording` is the payload that a
`record` in progress has written. -/
structure State (H : Type) where
  chain : Chain H
  relayer : List (Payload H)
  proved : List (Payload H)
  payloads : H → Option (Payload H)
  records : H → Option TransactionRecord
  recording : Option (Payload H)
  submits : H → Option (SubmitStep H)
  settlements : Nat → Option (Settlement H)

inductive Action (H : Type) where
  | prove (p : Payload H)
  | recordPayload (p : Payload H)
  | recordCommit
  | recordRollback
  | submitStart (t : H)
  | submitHead (t : H)
  | submitPayload (t : H)
  | submitMark (t : H)
  | submitSend (t : H) (result : RelayerResult)
  | submitFinish (t : H)
  | delete (t : H)
  | settleStart (i : Nat)
  | settleLoad (i : Nat) (t : H)
  | settleHead (i : Nat)
  | settleStatus (i : Nat) (t : H)
  | settleApply (i : Nat) (t : H)
  | settleEnd (i : Nat)
  | prune (t : H)
  | crash
  | others (p : Payload H)
  | block (n : Int) (ps : List (Payload H))

namespace State

def init : State H where
  chain := .genesis
  relayer := []
  proved := []
  payloads := fun _ => none
  records := fun _ => none
  recording := none
  submits := fun _ => none
  settlements := fun _ => none

def setSubmit (s : State H) (t : H) (step : Option (SubmitStep H)) : State H :=
  { s with submits := Function.update s.submits t step }

def setRecord (s : State H) (t : H) (r : TransactionRecord) : State H :=
  { s with records := Function.update s.records t (some r) }

def setSettlement (s : State H) (i : Nat) (x : Option (Settlement H)) : State H :=
  { s with settlements := Function.update s.settlements i x }

/-- `remove_transaction` takes away the payload and the record. -/
def removeTransaction (s : State H) (t : H) : State H :=
  { s with
    payloads := Function.update s.payloads t none
    records := Function.update s.records t none }

/-- The grounding of a proof is a committed state. -/
def prove (s : State H) (p : Payload H) : Option (State H) :=
  if p.groundingBlock ≤ s.chain.head then some { s with proved := p :: s.proved } else none

def recordPayload (s : State H) (p : Payload H) : Option (State H) :=
  if s.recording = none ∧ p ∈ s.proved ∧ s.records p.txFinal = none then
    some { s with
      proved := s.proved.erase p
      payloads := Function.update s.payloads p.txFinal (some p)
      recording := some p }
  else none

def recordCommit (s : State H) : Option (State H) :=
  match s.recording with
  | none => none
  | some p => some { s.setRecord p.txFinal (.recorded p.groundingBlock) with recording := none }

def recordRollback (s : State H) : Option (State H) :=
  match s.recording with
  | none => none
  | some p => some { s.removeTransaction p.txFinal with recording := none }

def submitStart (s : State H) (t : H) : Option (State H) :=
  match s.submits t, s.records t with
  | none, some r => if r.state = .recorded then some (s.setSubmit t (some (.read r.groundingBlock)))
    else none
  | _, _ => none

def submitHead (s : State H) (t : H) : Option (State H) :=
  match s.submits t with
  | some (.read g) =>
    if groundingAgedOut s.chain.head g then some (s.setSubmit t none)
    else some (s.setSubmit t (some .checked))
  | _ => none

def submitPayload (s : State H) (t : H) : Option (State H) :=
  match s.submits t with
  | some .checked => some (s.setSubmit t ((s.payloads t).map .loaded))
  | _ => none

def submitMark (s : State H) (t : H) : Option (State H) :=
  match s.recording, s.submits t with
  | none, some (.loaded p) =>
    match s.records t with
    | none => some (s.setSubmit t none)
    | some r =>
      if r.state = .recorded then
        some ((s.setRecord t { r with submitAttempted := true }).setSubmit t (some (.attempted p)))
      else some (s.setSubmit t none)
  | _, _ => none

def submitSend (s : State H) (t : H) (result : RelayerResult) : Option (State H) :=
  match s.submits t with
  | some (.attempted p) =>
    match result with
    | .accepted => some ({ s with relayer := p :: s.relayer }.setSubmit t (some .accepted))
    | .responseLost => some ({ s with relayer := p :: s.relayer }.setSubmit t none)
    | .unavailable => some (s.setSubmit t none)
  | _ => none

def submitFinish (s : State H) (t : H) : Option (State H) :=
  match s.recording, s.submits t with
  | none, some .accepted =>
    match s.records t with
    | none => some (s.setSubmit t none)
    | some r =>
      if r.state = .recorded then
        some ((s.setRecord t { r with state := .submitted }).setSubmit t none)
      else some (s.setSubmit t none)
  | _, _ => none

def delete (s : State H) (t : H) : Option (State H) :=
  match s.recording, s.records t with
  | none, some r =>
    if r.state = .recorded ∧ r.submitAttempted = false then some (s.removeTransaction t) else none
  | _, _ => none

def settleStart (s : State H) (i : Nat) : Option (State H) :=
  match s.settlements i with
  | none => some (s.setSettlement i (some .start))
  | some _ => none

def settleLoad (s : State H) (i : Nat) (t : H) : Option (State H) :=
  match s.settlements i, s.records t with
  | some x, some r =>
    if x.head = none ∧ r.isOpen then
      some (s.setSettlement i (some { x with
        queried := Function.update x.queried t true
        needs := Function.update x.needs t r.needsTxStatus }))
    else none
  | _, _ => none

def settleHead (s : State H) (i : Nat) : Option (State H) :=
  match s.settlements i with
  | some x =>
    if x.head = none then some (s.setSettlement i (some { x with head := some s.chain.head }))
    else none
  | none => none

def settleStatus (s : State H) (i : Nat) (t : H) : Option (State H) :=
  match s.settlements i with
  | some x =>
    if x.head ≠ none ∧ x.needs t then
      some (s.setSettlement i (some { x with
        statuses := Function.update x.statuses t (some (s.chain.status t)) }))
    else none
  | none => none

/-- The locked part of `settle_with` for one record. A submission attempted after the
statuses were read waits for the next pass. -/
def settleApply (s : State H) (i : Nat) (t : H) : Option (State H) :=
  match s.recording, s.settlements i, s.records t with
  | none, some x, some r =>
    match x.head with
    | none => none
    | some head =>
      if x.queried t ∧ r.isOpen then
        if r.needsTxStatus ∧ x.statuses t = none then some s
        else some (s.setRecord t (settleRecord head (x.statuses t).join r))
      else none
  | _, _, _ => none

def settleEnd (s : State H) (i : Nat) : Option (State H) := some (s.setSettlement i none)

def prune (s : State H) (t : H) : Option (State H) :=
  match s.recording, s.records t with
  | none, some r => if r.state.isTerminal then some (s.removeTransaction t) else none
  | _, _ => none

/-- A restart keeps the disk and the environment. -/
def crash (s : State H) : Option (State H) :=
  some { s with
    proved := []
    recording := none
    submits := fun _ => none
    settlements := fun _ => none }

/-- Another client hands the relayer a payload of its own. -/
def others (s : State H) (p : Payload H) : Option (State H) :=
  if s.payloads p.txFinal = some p then none else some { s with relayer := p :: s.relayer }

/-- The chain commits a block with payloads that the relayer holds. -/
def block (s : State H) (n : Int) (ps : List (Payload H)) : Option (State H) :=
  if s.chain.head < n ∧ ∀ p ∈ ps, p ∈ s.relayer then some { s with chain := s.chain.commit n ps }
  else none

def step (s : State H) : Action H → Option (State H)
  | .prove p => s.prove p
  | .recordPayload p => s.recordPayload p
  | .recordCommit => s.recordCommit
  | .recordRollback => s.recordRollback
  | .submitStart t => s.submitStart t
  | .submitHead t => s.submitHead t
  | .submitPayload t => s.submitPayload t
  | .submitMark t => s.submitMark t
  | .submitSend t result => s.submitSend t result
  | .submitFinish t => s.submitFinish t
  | .delete t => s.delete t
  | .settleStart i => s.settleStart i
  | .settleLoad i t => s.settleLoad i t
  | .settleHead i => s.settleHead i
  | .settleStatus i t => s.settleStatus i t
  | .settleApply i t => s.settleApply i t
  | .settleEnd i => s.settleEnd i
  | .prune t => s.prune t
  | .crash => s.crash
  | .others p => s.others p
  | .block n ps => s.block n ps

def run (s : State H) : List (Action H) → Option (State H)
  | [] => some s
  | a :: as => do
    let s' ← s.step a
    s'.run as

end State

end DigitalObjects.Driver
