namespace ExtentVolume

/-- A word cannot hold a result, or an index is outside its array. No caller handles a trap. -/
inductive Trap where
  | overflow
  | indexOutOfRange
  | capacityExceeded
deriving DecidableEq, Inhabited

inductive Stop (ε : Type) where
  | failure (e : ε)
  | trap (t : Trap)
deriving DecidableEq

/-- A computation whose arithmetic may trap. -/
abbrev Checked := Except Trap

/-- A computation that may report an error or trap. -/
abbrev Fallible (ε : Type) := Except (Stop ε)

/-- A step on a state that may report an error or trap; the state reached is kept in either case. -/
abbrev Action (ε σ : Type) := EStateM (Stop ε) σ

variable {ε ε' σ τ α : Type}

instance : MonadLift Checked (Fallible ε) where
  monadLift
    | .ok a => .ok a
    | .error t => .error (.trap t)

instance : MonadLift (Fallible ε) (Action ε σ) where
  monadLift x := fun s => match x with
    | .ok a => .ok a s
    | .error e => .error e s

@[simp] theorem Action.run_lift (x : Fallible ε α) (s : σ) :
    EStateM.run (liftM x : Action ε σ α) s =
      match x with
      | .ok a => .ok a s
      | .error e => .error e s := rfl

@[simp] theorem Action.run_checked (x : Checked α) (s : σ) :
    EStateM.run (liftM x : Action ε σ α) s =
      match x with
      | .ok a => .ok a s
      | .error t => .error (.trap t) s := by
  cases x <;> rfl

def fail (e : ε) : Fallible ε α := .error (.failure e)

def refuseIf (c : Prop) [Decidable c] (e : ε) : Fallible ε Unit := if c then fail e else .ok ()

def Stop.map (f : ε → ε') : Stop ε → Stop ε'
  | .failure e => .failure (f e)
  | .trap t => .trap t

/-- Restates an error in the caller's terms; a trap stays what it is. -/
def Fallible.restate (f : ε → ε') : Fallible ε α → Fallible ε' α
  | .ok a => .ok a
  | .error e => .error (e.map f)

namespace Action

def fail (e : ε) : Action ε σ α := fun s => .error (.failure e) s

@[simp] theorem run_fail (e : ε) (s : σ) :
    EStateM.run (fail e : Action ε σ α) s = .error (.failure e) s := rfl

def refuseIf (c : Prop) [Decidable c] (e : ε) : Action ε σ Unit := if c then fail e else pure ()

def restate (f : ε → ε') (x : Action ε σ α) : Action ε' σ α := fun s =>
  match x s with
  | .ok a s' => .ok a s'
  | .error e s' => .error (e.map f) s'

/-- Runs a step on a part of the state and puts back what it left of that part, also on failure. -/
def within (part : σ → τ) (replace : σ → τ → σ) (x : Action ε τ α) : Action ε σ α := fun s =>
  match x (part s) with
  | .ok a t => .ok a (replace s t)
  | .error e t => .error e (replace s t)

@[simp] theorem run_within (part : σ → τ) (replace : σ → τ → σ) (x : Action ε τ α) (s : σ) :
    EStateM.run (within part replace x) s =
      match x (part s) with
      | .ok a t => .ok a (replace s t)
      | .error e t => .error e (replace s t) := rfl

def attempt (x : Action ε σ α) : Action ε' σ (Except ε α) := fun s =>
  match x s with
  | .ok a s' => .ok (.ok a) s'
  | .error (.failure e) s' => .ok (.error e) s'
  | .error (.trap t) s' => .error (.trap t) s'

end Action

def word16 (n : Nat) : Checked UInt16 :=
  if n < UInt16.size then .ok (.ofNat n) else .error .overflow

def word32 (n : Nat) : Checked UInt32 :=
  if n < UInt32.size then .ok (.ofNat n) else .error .overflow

def word64 (n : Nat) : Checked UInt64 :=
  if n < UInt64.size then .ok (.ofNat n) else .error .overflow

def difference16 (a b : UInt16) : Checked UInt16 :=
  if b ≤ a then .ok (a - b) else .error .overflow

def difference32 (a b : UInt32) : Checked UInt32 :=
  if b ≤ a then .ok (a - b) else .error .overflow

end ExtentVolume
