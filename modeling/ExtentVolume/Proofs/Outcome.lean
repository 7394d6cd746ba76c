import Mathlib.Algebra.Group.Nat.Defs
import Mathlib.Tactic.Common
import ExtentVolume.Outcome

namespace ExtentVolume

variable {ε ε' σ τ α β : Type} {n : Nat}

theorem word32_ok (h : n < 2 ^ 32) : word32 n = .ok (.ofNat n) := if_pos h

theorem word32_overflow (h : ¬n < 2 ^ 32) : word32 n = .error .overflow := if_neg h

theorem word64_ok (h : n < 2 ^ 64) : word64 n = .ok (.ofNat n) := if_pos h

/-- The value satisfies `post`, a reported error satisfies `failed`, and a trap needs `trapped`. -/
def Fallible.Ensures (x : Fallible ε α) (post : α → Prop) (failed : ε → Prop) (trapped : Prop) :
    Prop :=
  match x with
  | .ok a => post a
  | .error (.failure e) => failed e
  | .error (.trap _) => trapped

namespace Fallible

variable {P : α → Prop} {F : ε → Prop} {T : Prop}

theorem ensures_ok {a : α} : Ensures (.ok a : Fallible ε α) P F T ↔ P a := Iff.rfl

theorem ensures_pure {a : α} : Ensures (pure a : Fallible ε α) P F T ↔ P a := Iff.rfl

theorem ensures_refuseIf {c : Prop} [Decidable c] {e : ε} {P : Unit → Prop} :
    Ensures (refuseIf c e) P F T ↔ if c then F e else P () := by
  by_cases hc : c <;> simp [Ensures, refuseIf, fail, hc]

theorem ensures_bind {x : Fallible ε β} {f : β → Fallible ε α} :
    Ensures (x >>= f) P F T ↔ Ensures x (fun b => Ensures (f b) P F T) F T := by
  cases x with
  | ok b => rfl
  | error e => cases e <;> rfl

theorem ensures_restate {f : ε → ε'} {x : Fallible ε α} {F : ε' → Prop} :
    Ensures (restate f x) P F T ↔ Ensures x P (fun e => F (f e)) T := by
  cases x with
  | ok a => rfl
  | error e => cases e <;> rfl

theorem ensures_lift {x : Checked α} :
    Ensures (liftM x : Fallible ε α) P F T ↔ match x with
      | .ok a => P a
      | .error _ => T := by
  cases x <;> rfl

theorem of_bind_ok {x : Fallible ε β} {f : β → Fallible ε α} {a : α} (h : x >>= f = .ok a) :
    ∃ b, x = .ok b ∧ f b = .ok a := by
  cases x with
  | ok b => exact ⟨b, rfl, h⟩
  | error e => cases h

theorem of_restate_ok {f : ε → ε'} {x : Fallible ε α} {a : α} (h : restate f x = .ok a) :
    x = .ok a := by
  cases x with
  | ok b => exact congrArg Except.ok (Except.ok.inj h)
  | error e => cases h

theorem of_lift_ok {x : Checked α} {a : α} (h : (liftM x : Fallible ε α) = .ok a) : x = .ok a := by
  cases x with
  | ok b => exact congrArg Except.ok (Except.ok.inj h)
  | error t => cases h

theorem Ensures.of_ok {x : Fallible ε α} {a : α} (h : Ensures x P F T) (hx : x = .ok a) : P a := by
  simpa only [Ensures, hx] using h

theorem Ensures.exists_ok {x : Fallible ε α} (h : Ensures x P (fun _ => False) False) :
    ∃ a, x = .ok a ∧ P a := by
  match x, h with
  | .ok a, h => exact ⟨a, rfl, h⟩

theorem Ensures.no_trap {x : Fallible ε α} (h : Ensures x P F False) (t : Trap) :
    x ≠ .error (.trap t) := by
  rintro rfl
  exact h

theorem ensures_cases {x : Fallible ε α} (hp : ∀ a, x = .ok a → P a) (hf : ∀ e, F e) :
    x.Ensures P F True :=
  match x with
  | .ok a => hp a rfl
  | .error (.failure e) => hf e
  | .error (.trap _) => trivial

theorem Ensures.mono {x : Fallible ε α} {P' : α → Prop} {F' : ε → Prop} {T' : Prop}
    (h : Ensures x P F T) (hp : ∀ a, P a → P' a) (hf : ∀ e, F e → F' e) (ht : T → T') :
    Ensures x P' F' T' := by
  cases x with
  | ok a => exact hp a h
  | error e => cases e with
    | failure e => exact hf e h
    | trap t => exact ht h

theorem Ensures.imp {x : Fallible ε α} {P' : α → Prop} (h : Ensures x P F T)
    (hp : ∀ a, P a → P' a) : Ensures x P' F T :=
  h.mono hp (fun _ h => h) fun h => h

/-- Errors and traps of the first step are those of the two steps. -/
theorem Ensures.bind {x : Fallible ε β} {f : β → Fallible ε α} {Q : β → Prop} (h : Ensures x Q F T)
    (hf : ∀ b, Q b → Ensures (f b) P F T) : Ensures (x >>= f) P F T :=
  ensures_bind.2 (h.imp hf)

/-- Whether there is a value and it has the property. -/
def any (x : Fallible ε α) (p : α → Bool) : Bool :=
  match x with
  | .ok a => p a
  | .error _ => false

theorem any_eq_true {x : Fallible ε α} {p : α → Bool} :
    any x p = true ↔ ∃ a, x = .ok a ∧ p a = true := by
  cases x <;> simp [any]

end Fallible

namespace Action

/-- `Fallible.Ensures` for a step, whose conditions also see the state that it leaves. -/
def Ensures (x : Action ε σ α) (s : σ) (post : α → σ → Prop) (failed : ε → σ → Prop)
    (trapped : Prop) : Prop :=
  match x s with
  | .ok a s' => post a s'
  | .error (.failure e) s' => failed e s'
  | .error (.trap _) _ => trapped

/-- However the step comes to an end, it leaves a state with the property. -/
abbrev Leaves (x : Action ε σ α) (s : σ) (R : σ → Prop) : Prop :=
  Ensures x s (fun _ => R) (fun _ => R) True

/-- The step comes to an end, with an answer or an error, and leaves `s'`. -/
def Returns (x : Action ε σ α) (s s' : σ) : Prop :=
  (∃ a, x s = .ok a s') ∨ ∃ e, x s = .error (.failure e) s'

variable {s s' : σ} {P : α → σ → Prop} {F : ε → σ → Prop} {T : Prop}

theorem Ensures.mono {x : Action ε σ α} {P' : α → σ → Prop} {F' : ε → σ → Prop} {T' : Prop}
    (h : Ensures x s P F T) (hp : ∀ a s', P a s' → P' a s') (hf : ∀ e s', F e s' → F' e s')
    (ht : T → T') : Ensures x s P' F' T' := by
  unfold Ensures at h ⊢
  cases hx : x s with
  | ok a s' => exact hp a s' (by simpa only [hx] using h)
  | error e s' => cases e with
    | failure e => exact hf e s' (by simpa only [hx] using h)
    | trap t => exact ht (by simpa only [hx] using h)

theorem Ensures.imp {x : Action ε σ α} {P' : α → σ → Prop} (h : Ensures x s P F T)
    (hp : ∀ a s', P a s' → P' a s') : Ensures x s P' F T :=
  h.mono hp (fun _ _ h => h) fun h => h

theorem Ensures.of_ok {x : Action ε σ α} {a : α} (h : Ensures x s P F T) (hx : x s = .ok a s') :
    P a s' := by
  simpa only [Ensures, hx] using h

theorem Ensures.of_failure {x : Action ε σ α} {e : ε} (h : Ensures x s P F T)
    (hx : x s = .error (.failure e) s') : F e s' := by
  simpa only [Ensures, hx] using h

theorem Ensures.of_trap {x : Action ε σ α} {t : Trap} (h : Ensures x s P F T)
    (hx : x s = .error (.trap t) s') : T := by
  simpa only [Ensures, hx] using h

theorem ensures_of_ok {x : Action ε σ α} {a : α} (hx : x s = .ok a s') :
    Ensures x s P F T ↔ P a s' := by
  simp only [Ensures, hx]

/-- A step that neither reports an error nor traps gives an answer. -/
theorem Ensures.exists_ok {x : Action ε σ α} (h : Ensures x s P F T) (hf : ∀ e s', ¬F e s')
    (ht : ¬T) : ∃ a s', x s = .ok a s' ∧ P a s' := by
  cases hx : x s with
  | ok a s' => exact ⟨a, s', rfl, h.of_ok hx⟩
  | error stop s' => cases stop with
    | failure e => exact absurd (h.of_failure hx) (hf e s')
    | trap t => exact absurd (h.of_trap hx) ht

theorem Ensures.of_returns {x : Action ε σ α} {R : σ → Prop}
    (h : Ensures x s (fun _ => R) (fun _ => R) T) (hx : Returns x s s') : R s' := by
  obtain ⟨a, hx⟩ | ⟨e, hx⟩ := hx
  · exact h.of_ok hx
  · exact h.of_failure hx

theorem Ensures.and {x : Action ε σ α} {P' : α → σ → Prop} {F' : ε → σ → Prop} {T' : Prop}
    (h : Ensures x s P F T) (h' : Ensures x s P' F' T') :
    Ensures x s (fun a s' => P a s' ∧ P' a s') (fun e s' => F e s' ∧ F' e s') (T ∧ T') := by
  unfold Ensures at h h' ⊢
  split <;> simp_all only [and_self]

theorem Ensures.run {x : Action ε σ α} (h : Ensures x s P F T) :
    Ensures x s (fun a s' => x s = .ok a s' ∧ P a s')
      (fun e s' => x s = .error (.failure e) s' ∧ F e s') T := by
  unfold Ensures at h ⊢
  split <;> simp_all only [and_self]

theorem Ensures.returns {x : Action ε σ α} (h : Ensures x s P F False) : ∃ s', Returns x s s' := by
  unfold Ensures at h
  cases hx : x s with
  | ok a s' => exact ⟨s', .inl ⟨a, hx⟩⟩
  | error e s' => cases e with
    | failure e => exact ⟨s', .inr ⟨e, hx⟩⟩
    | trap t => simp only [hx] at h

theorem ensures_pure {a : α} : Ensures (pure a : Action ε σ α) s P F T ↔ P a s := Iff.rfl

theorem ensures_fail {e : ε} : Ensures (fail e : Action ε σ α) s P F T ↔ F e s := Iff.rfl

theorem ensures_refuseIf {c : Prop} [Decidable c] {e : ε} {P : Unit → σ → Prop} :
    Ensures (refuseIf c e) s P F T ↔ if c then F e s else P () s := by
  unfold refuseIf
  split
  · exact ensures_fail
  · exact ensures_pure

theorem ensures_bind {x : Action ε σ β} {f : β → Action ε σ α} :
    Ensures (x >>= f) s P F T ↔ Ensures x s (fun b s' => Ensures (f b) s' P F T) F T := by
  simp only [Ensures, bind, EStateM.bind]
  cases x s with
  | ok b s' => rfl
  | error e s' => cases e <;> rfl

theorem ensures_get {P : σ → σ → Prop} : Ensures (get : Action ε σ σ) s P F T ↔ P s s := Iff.rfl

theorem ensures_set {P : PUnit → σ → Prop} :
    Ensures (set s' : Action ε σ PUnit) s P F T ↔ P ⟨⟩ s' := Iff.rfl

theorem ensures_modify {f : σ → σ} {P : PUnit → σ → Prop} :
    Ensures (modify f : Action ε σ PUnit) s P F T ↔ P ⟨⟩ (f s) := Iff.rfl

theorem ensures_lift {x : Fallible ε α} :
    Ensures (liftM x : Action ε σ α) s P F T ↔
      x.Ensures (fun a => P a s) (fun e => F e s) T := by
  cases x with
  | ok a => rfl
  | error e => cases e <;> rfl

theorem ensures_checked {x : Checked α} :
    Ensures (liftM x : Action ε σ α) s P F T ↔ match x with
      | .ok a => P a s
      | .error _ => T := by
  cases x <;> rfl

theorem ensures_restate {f : ε → ε'} {x : Action ε σ α} {F : ε' → σ → Prop} :
    Ensures (restate f x) s P F T ↔ Ensures x s P (fun e => F (f e)) T := by
  simp only [Ensures, restate]
  cases x s with
  | ok a s' => rfl
  | error e s' => cases e <;> rfl

theorem ensures_within {part : σ → τ} {replace : σ → τ → σ} {x : Action ε τ α} :
    Ensures (within part replace x) s P F T ↔
      Ensures x (part s) (fun a t => P a (replace s t)) (fun e t => F e (replace s t)) T := by
  simp only [Ensures, within]
  cases x (part s) with
  | ok a t => rfl
  | error e t => cases e <;> rfl

theorem ensures_attempt {x : Action ε σ α} {P : Except ε α → σ → Prop} {F : ε' → σ → Prop} :
    Ensures (attempt x) s P F T ↔
      Ensures x s (fun a => P (.ok a)) (fun e => P (.error e)) T := by
  simp only [Ensures, attempt]
  cases x s with
  | ok a s' => rfl
  | error e s' => cases e <;> rfl

theorem leaves_true (x : Action ε σ α) (s : σ) : Leaves x s fun _ => True := by
  unfold Leaves Ensures
  split <;> trivial

theorem leaves_iff {x : Action ε σ α} {R : σ → Prop} :
    Leaves x s R ↔ ∀ s', Returns x s s' → R s' := by
  constructor
  · exact fun h s' => h.of_returns
  · intro h
    exact (leaves_true x s).run.mono (fun a s' hrun => h s' (.inl ⟨a, hrun.1⟩))
      (fun e s' hrun => h s' (.inr ⟨e, hrun.1⟩)) id

theorem leaves_forM {R : σ → Prop} {f : α → Action ε σ Unit} (h : ∀ a s, R s → Leaves (f a) s R)
    (l : List α) (hs : R s) : Leaves (l.forM f) s R := by
  induction l generalizing s with
  | nil => exact hs
  | cons a l ih =>
    rw [List.forM_eq_forM, List.forM_cons, Leaves, ensures_bind]
    exact (h a s hs).mono (fun _ _ hs' => ih hs') (fun _ _ hs' => hs') fun h => h

/-- `Fallible.any` for a step, whose property also sees the state that it leaves. -/
def any (x : Action ε σ α) (s : σ) (p : α → σ → Bool) : Bool :=
  match x s with
  | .ok a s' => p a s'
  | .error _ _ => false

theorem any_eq_true {x : Action ε σ α} {p : α → σ → Bool} :
    any x s p = true ↔ ∃ a s', x s = .ok a s' ∧ p a s' = true := by
  rw [any]
  cases x s <;> simp

end Action

end ExtentVolume
