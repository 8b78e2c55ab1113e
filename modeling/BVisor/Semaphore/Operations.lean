import Mathlib

/-! System V semaphore sets: lists of operations that apply together or not at all. -/

namespace BVisor.Semaphore

open List

/-- `SEMVMX`. -/
def valueMax : Int := 32767

def int16 (value : Int) : Int :=
  (value + 2 ^ 15) % 2 ^ 16 - 2 ^ 15

structure Sembuf where
  semNum : Nat
  semOp : Int
  noWait : Bool
  isInt16 : -2 ^ 15 ≤ semOp ∧ semOp < 2 ^ 15

inductive Errno where
  | eidrm | efbig | eacces | erange | wouldBlock
deriving DecidableEq

/-- What `CheckPermissions` says of the caller. -/
structure Permissions where
  mayRead : Bool
  mayWrite : Bool

/-- Operations that only wait for 0 read, all others alter. -/
def Permissions.allow (permissions : Permissions) (ops : List Sembuf) : Bool :=
  if ops.all fun op => op.semOp = 0 then permissions.mayRead else permissions.mayWrite

/-- `wait` stands for a channel, on which a waiter of semaphore `num` is told to try again. -/
inductive Outcome where
  | done
  | wait (num : Nat)
  | error (error : Errno)
  | panicked
deriving DecidableEq

/-- The values of the semaphores. Their waiters are left out: a change notifies some of them, and
no call reads them to choose a value or an outcome. -/
structure Set where
  values : List Int
  dead : Bool

inductive Attempt where
  | applied (values : List Int)
  | stopped (outcome : Outcome)

def mustWait (op : Sembuf) : Attempt :=
  .stopped (if op.noWait then .error .wouldBlock else .wait op.semNum)

def attempt (values : List Int) : List Sembuf → Attempt
  | [] => .applied values
  | op :: rest =>
    let value := values.getD op.semNum 0
    if op.semOp = 0 then
      if value ≠ 0 then mustWait op else attempt values rest
    else if op.semOp < 0 then
      if int16 (-op.semOp) > valueMax then .stopped (.error .erange)
      else if int16 (-op.semOp) > value then mustWait op
      else attempt (values.set op.semNum (int16 (value + op.semOp))) rest
    else if value > int16 (valueMax - op.semOp) then .stopped (.error .erange)
    else attempt (values.set op.semNum (int16 (value + op.semOp))) rest

namespace Set

def executeOps (set : Set) (permissions : Permissions) (ops : List Sembuf) : Outcome × Set :=
  if set.dead then (.error .eidrm, set)
  else if ops.any fun op => set.values.length ≤ op.semNum then (.error .efbig, set)
  else if !permissions.allow ops then (.error .eacces, set)
  else
    match attempt set.values ops with
    | .applied values => (.done, { set with values := values })
    | .stopped outcome => (outcome, set)

def setVal (set : Set) (permissions : Permissions) (num val : Int) : Outcome × Set :=
  if val < 0 ∨ val > valueMax then (.error .erange, set)
  else if !permissions.mayWrite then (.error .eacces, set)
  else if num < 0 ∨ num ≥ set.values.length then (.error .erange, set)
  else (.done, { set with values := set.values.set num.toNat val })

def setValAll (set : Set) (permissions : Permissions) (vals : List Nat) : Outcome × Set :=
  if vals.length ≠ set.values.length then (.panicked, set)
  else if vals.any fun val => (val : Int) > valueMax then (.error .erange, set)
  else if !permissions.mayWrite then (.error .eacces, set)
  else (.done, { set with values := vals.map fun (val : Nat) => int16 val })

end Set

inductive Call where
  | executeOps (permissions : Permissions) (ops : List Sembuf)
  | setVal (permissions : Permissions) (num val : Int)
  | setValAll (permissions : Permissions) (vals : List Nat)

def Call.apply (set : Set) : Call → Outcome × Set
  | .executeOps permissions ops => set.executeOps permissions ops
  | .setVal permissions num val => set.setVal permissions num val
  | .setValAll permissions vals => set.setValAll permissions vals

def run (set : Set) (calls : List Call) : Set :=
  calls.foldl (fun set call => (call.apply set).2) set

/-! What the operations are for, in integers without bounds. -/

def Feasible (value : Int) (op : Sembuf) : Prop :=
  (op.semOp < 0 → -op.semOp ≤ value) ∧ (op.semOp = 0 → value = 0) ∧
    (0 < op.semOp → value + op.semOp ≤ valueMax)

instance (value : Int) (op : Sembuf) : Decidable (Feasible value op) :=
  inferInstanceAs (Decidable (_ ∧ _ ∧ _))

def specified (values : List Int) : List Sembuf → Option (List Int)
  | [] => some values
  | op :: rest =>
    let value := values.getD op.semNum 0
    if Feasible value op then specified (values.set op.semNum (value + op.semOp)) rest else none

def InRange (values : List Int) : Prop :=
  ∀ value ∈ values, 0 ≤ value ∧ value ≤ valueMax

def Negatable (ops : List Sembuf) : Prop :=
  ∀ op ∈ ops, op.semOp ≠ -2 ^ 15

/-- The call does not complete a list with an amount that has no negation. -/
def Call.Guarded (set : Set) : Call → Prop
  | .executeOps permissions ops => (set.executeOps permissions ops).1 = .done → Negatable ops
  | _ => True

def Guarded (set : Set) : List Call → Prop
  | [] => True
  | call :: rest => call.Guarded set ∧ Guarded (call.apply set).2 rest

section Attempts

variable {values : List Int} {op : Sembuf} {ops rest : List Sembuf} {num : Nat} {value : Int}

theorem InRange.getD (inRange : InRange values) : 0 ≤ values.getD num 0 ∧ values.getD num 0 ≤ valueMax := by
  rw [getD_eq_getElem?_getD]
  cases found : values[num]? with
  | none => simp [valueMax]
  | some value => exact inRange value (mem_of_getElem? found)

theorem InRange.set (inRange : InRange values) (lower : 0 ≤ value) (upper : value ≤ valueMax) :
    InRange (values.set num value) := by
  intro other member
  rcases mem_or_eq_of_mem_set member with old | rfl
  · exact inRange other old
  · exact ⟨lower, upper⟩

theorem Feasible.bounds (feasible : Feasible value op) (lower : 0 ≤ value) (upper : value ≤ valueMax) :
    0 ≤ value + op.semOp ∧ value + op.semOp ≤ valueMax ∧ op.semOp ≠ -2 ^ 15 := by
  have limit : valueMax = 32767 := rfl
  unfold Feasible at feasible
  omega

end Attempts

variable {set : Set} {permissions : Permissions} {ops : List Sembuf} {calls : List Call}

/-- All operations as specified, or no change and no success. -/
def Set.Follows (set : Set) (permissions : Permissions) (ops : List Sembuf) : Prop :=
  let result := set.executeOps permissions ops
  (result.1 = .done ∧ specified set.values ops = some result.2.values) ∨
    (result.1 ≠ .done ∧ result.2 = set)

section

variable (inRange : InRange set.values)
include inRange

end

end BVisor.Semaphore
