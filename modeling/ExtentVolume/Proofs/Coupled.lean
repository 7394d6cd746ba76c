import ExtentVolume.Proofs.Outcome

namespace ExtentVolume

variable {ε ε' σ τ α α' β β' : Type}

/-- Both have a value, and `post` relates the two, or both end with the same error or trap. -/
inductive Fallible.Coupled (x : Fallible ε α) (y : Fallible ε β) (post : α → β → Prop) : Prop where
  | ok {a : α} {b : β} (hx : x = .ok a) (hy : y = .ok b) (h : post a b) : Coupled x y post
  | error {e : Stop ε} (hx : x = .error e) (hy : y = .error e) : Coupled x y post

namespace Fallible.Coupled

variable {x : Fallible ε α} {y : Fallible ε β} {post : α → β → Prop}

theorem of_ok {a : α} (h : Coupled x y post) (hx : x = .ok a) : ∃ b, y = .ok b ∧ post a b := by
  cases h with
  | @ok a' b hx' hy h =>
    obtain rfl := Except.ok.inj (hx'.symm.trans hx)
    exact ⟨b, hy, h⟩
  | error hx' hy =>
    rw [hx] at hx'
    cases hx'

theorem restate {f : ε → ε'} (h : Coupled x y post) :
    Coupled (Fallible.restate f x) (Fallible.restate f y) post := by
  cases h with
  | ok hx hy h => exact .ok (by rw [hx]; rfl) (by rw [hy]; rfl) h
  | error hx hy => exact .error (by rw [hx]; rfl) (by rw [hy]; rfl)

end Fallible.Coupled

namespace Action

/-- `Fallible.Coupled` for steps from `s` and from `t`, whose conditions also see the states that
they leave. Nothing is said of the states after a trap. -/
inductive Coupled (x : Action ε σ α) (s : σ) (y : Action ε τ β) (t : τ)
    (post : α → β → σ → τ → Prop) (failed : σ → τ → Prop) : Prop where
  | ok {a : α} {b : β} {s' : σ} {t' : τ} (hx : x s = .ok a s') (hy : y t = .ok b t')
      (h : post a b s' t') : Coupled x s y t post failed
  | failure {e : ε} {s' : σ} {t' : τ} (hx : x s = .error (.failure e) s')
      (hy : y t = .error (.failure e) t') (h : failed s' t') : Coupled x s y t post failed
  | trap {k : Trap} {s' : σ} {t' : τ} (hx : x s = .error (.trap k) s')
      (hy : y t = .error (.trap k) t') : Coupled x s y t post failed

/-- The steps end alike, in states that are again related. -/
abbrev Agrees (x : Action ε σ α) (s : σ) (y : Action ε τ α) (t : τ) (same : σ → τ → Prop) : Prop :=
  Coupled x s y t (fun a b s' t' => a = b ∧ same s' t') same

abbrev Alike (x : Action ε σ α) (s t : σ) (same : σ → σ → Prop) : Prop := Agrees x s x t same

theorem bind_ok {x : Action ε σ α} {f : α → Action ε σ β} {a : α} {s s' : σ} (h : x s = .ok a s') :
    (x >>= f) s = f a s' := by
  simp only [bind, EStateM.bind, h]

theorem bind_error {x : Action ε σ α} {f : α → Action ε σ β} {e : Stop ε} {s s' : σ}
    (h : x s = .error e s') : (x >>= f) s = .error e s' := by
  simp only [bind, EStateM.bind, h]

namespace Coupled

variable {x : Action ε σ α} {y : Action ε τ β} {s : σ} {t : τ} {post : α → β → σ → τ → Prop}
  {failed : σ → τ → Prop} {f : α → Action ε σ α'} {g : β → Action ε τ β'}
  {post' : α' → β' → σ → τ → Prop}

theorem mono {failed' : σ → τ → Prop} {post' : α → β → σ → τ → Prop}
    (h : Coupled x s y t post failed) (hp : ∀ a b s' t', post a b s' t' → post' a b s' t')
    (hf : ∀ s' t', failed s' t' → failed' s' t') : Coupled x s y t post' failed' := by
  cases h with
  | ok hx hy h => exact .ok hx hy (hp _ _ _ _ h)
  | failure hx hy h => exact .failure hx hy (hf _ _ h)
  | trap hx hy => exact .trap hx hy

theorem congr {x' : Action ε σ α} {y' : Action ε τ β} {s' : σ} {t' : τ}
    (h : Coupled x' s' y' t' post failed) (hx : x s = x' s') (hy : y t = y' t') :
    Coupled x s y t post failed := by
  cases h with
  | ok hx' hy' h => exact .ok (hx.trans hx') (hy.trans hy') h
  | failure hx' hy' h => exact .failure (hx.trans hx') (hy.trans hy') h
  | trap hx' hy' => exact .trap (hx.trans hx') (hy.trans hy')

theorem of_ok {a : α} {s' : σ} (h : Coupled x s y t post failed) (hx : x s = .ok a s') :
    ∃ b t', y t = .ok b t' ∧ post a b s' t' := by
  cases h with
  | @ok _ b _ t' hx' hy h =>
    obtain ⟨rfl, rfl⟩ := EStateM.Result.ok.inj (hx'.symm.trans hx)
    exact ⟨b, t', hy, h⟩
  | failure hx' hy h =>
    rw [hx] at hx'
    cases hx'
  | trap hx' hy =>
    rw [hx] at hx'
    cases hx'

theorem of_failure {e : ε} {s' : σ} (h : Coupled x s y t post failed)
    (hx : x s = .error (.failure e) s') : ∃ t', y t = .error (.failure e) t' ∧ failed s' t' := by
  cases h with
  | ok hx' hy h =>
    rw [hx] at hx'
    cases hx'
  | @failure _ _ t' hx' hy h =>
    rw [hx] at hx'
    cases hx'
    exact ⟨t', hy, h⟩
  | trap hx' hy =>
    rw [hx] at hx'
    cases hx'

theorem and_ensures {P : α → σ → Prop} {F : ε → σ → Prop} {T : Prop}
    (h : Coupled x s y t post failed) (he : Ensures x s P F T) :
    Coupled x s y t (fun a b s' t' => post a b s' t' ∧ P a s')
      (fun s' t' => failed s' t' ∧ ∃ e, F e s') := by
  cases h with
  | ok hx hy h => exact .ok hx hy ⟨h, he.of_ok hx⟩
  | failure hx hy h => exact .failure hx hy ⟨h, _, he.of_failure hx⟩
  | trap hx hy => exact .trap hx hy

theorem bind
    (h : Coupled x s y t (fun a b s' t' => Coupled (f a) s' (g b) t' post' failed) failed) :
    Coupled (x >>= f) s (y >>= g) t post' failed := by
  cases h with
  | ok hx hy h => cases h with
    | ok hx' hy' h => exact .ok ((bind_ok hx).trans hx') ((bind_ok hy).trans hy') h
    | failure hx' hy' h => exact .failure ((bind_ok hx).trans hx') ((bind_ok hy).trans hy') h
    | trap hx' hy' => exact .trap ((bind_ok hx).trans hx') ((bind_ok hy).trans hy')
  | failure hx hy h => exact .failure (bind_error hx) (bind_error hy) h
  | trap hx hy => exact .trap (bind_error hx) (bind_error hy)

theorem seq {y : Action ε τ α} {g : α → Action ε τ β'} (hx : Agrees x s y t failed)
    (h : ∀ a s' t', failed s' t' → Coupled (f a) s' (g a) t' post' failed) :
    Coupled (x >>= f) s (y >>= g) t post' failed := by
  refine bind (hx.mono ?_ fun _ _ => id)
  rintro a _ s' t' ⟨rfl, hsame⟩
  exact h a s' t' hsame

theorem pure {a : α} {b : β} (h : post a b s t) :
    Coupled (Pure.pure a : Action ε σ α) s (Pure.pure b : Action ε τ β) t post failed :=
  .ok rfl rfl h

theorem fail {e : ε} (h : failed s t) :
    Coupled (Action.fail e : Action ε σ α) s (Action.fail e : Action ε τ β) t post failed :=
  .failure rfl rfl h

theorem throw {stop : Stop ε} (h : failed s t) :
    Coupled (MonadExcept.throw stop : Action ε σ α) s (MonadExcept.throw stop : Action ε τ β) t post
      failed := by
  cases stop with
  | failure e => exact .failure rfl rfl h
  | trap k => exact .trap rfl rfl

theorem get_bind {f : σ → Action ε σ α} {g : τ → Action ε τ β}
    (h : Coupled (f s) s (g t) t post failed) :
    Coupled (get >>= f) s (get >>= g) t post failed :=
  bind (.ok rfl rfl h)

theorem set_bind {f : PUnit → Action ε σ α} {g : PUnit → Action ε τ β} {s' : σ} {t' : τ}
    (h : Coupled (f ⟨⟩) s' (g ⟨⟩) t' post failed) :
    Coupled (set s' >>= f) s (set t' >>= g) t post failed :=
  bind (.ok rfl rfl h)

theorem modify_bind {f : PUnit → Action ε σ α} {g : PUnit → Action ε τ β} {k : σ → σ} {l : τ → τ}
    (h : Coupled (f ⟨⟩) (k s) (g ⟨⟩) (l t) post failed) :
    Coupled (modify k >>= f) s (modify l >>= g) t post failed :=
  bind (.ok rfl rfl h)

theorem modify {k : σ → σ} {l : τ → τ} {post : PUnit → PUnit → σ → τ → Prop}
    (h : post ⟨⟩ ⟨⟩ (k s) (l t)) :
    Coupled (modify k : Action ε σ PUnit) s (modify l : Action ε τ PUnit) t
      post failed :=
  .ok rfl rfl h

theorem refuseIf_bind {c : Prop} [Decidable c] {e : ε} {f : Unit → Action ε σ α}
    {g : Unit → Action ε τ β} (hfailed : failed s t)
    (h : ¬c → Coupled (f ()) s (g ()) t post failed) :
    Coupled (refuseIf c e >>= f) s (refuseIf c e >>= g) t post failed := by
  unfold refuseIf
  split
  · exact bind (.failure rfl rfl hfailed)
  · rename_i hc
    exact bind (.ok rfl rfl (h hc))

theorem lift {x : Fallible ε α} {y : Fallible ε β} {Q : α → β → Prop} (hxy : x.Coupled y Q)
    (hfailed : failed s t) (h : ∀ a b, x = .ok a → Q a b → post a b s t) :
    Coupled (liftM x : Action ε σ α) s (liftM y : Action ε τ β) t post failed := by
  cases hxy with
  | @ok a b hx hy hq =>
    have hpost := h a b hx hq
    subst hx hy
    exact .ok rfl rfl hpost
  | @error stop hx hy =>
    subst hx hy
    cases stop with
    | failure e => exact .failure rfl rfl hfailed
    | trap k => exact .trap rfl rfl

theorem lift_self {x : Fallible ε α} {post : α → α → σ → τ → Prop} (hfailed : failed s t)
    (h : ∀ a, x = .ok a → post a a s t) :
    Coupled (liftM x : Action ε σ α) s (liftM x : Action ε τ α) t post failed := by
  have hxx : x.Coupled x (· = ·) := by
    cases x with
    | ok a => exact .ok rfl rfl rfl
    | error e => exact .error rfl rfl
  refine lift hxx hfailed ?_
  rintro a _ hx rfl
  exact h a hx

theorem lift_bind {x : Fallible ε α} {y : Fallible ε β} {Q : α → β → Prop}
    (hxy : x.Coupled y Q) (hfailed : failed s t)
    (h : ∀ a b, x = .ok a → Q a b → Coupled (f a) s (g b) t post' failed) :
    Coupled (liftM x >>= f) s (liftM y >>= g) t post' failed :=
  bind (lift hxy hfailed h)

theorem lift_bind_self {f : α → Action ε σ α'} {g : α → Action ε τ β'} {x : Fallible ε α}
    (hfailed : failed s t) (h : ∀ a, x = .ok a → Coupled (f a) s (g a) t post' failed) :
    Coupled (liftM x >>= f) s (liftM x >>= g) t post' failed :=
  bind (lift_self hfailed h)

theorem checked_bind {f : α → Action ε σ α'} {g : α → Action ε τ β'} {x : Checked α}
    (h : ∀ a, x = .ok a → Coupled (f a) s (g a) t post' failed) :
    Coupled (liftM x >>= f) s (liftM x >>= g) t post' failed := by
  cases x with
  | ok a => exact bind (.ok rfl rfl (h a rfl))
  | error k => exact bind (.trap rfl rfl)

theorem within {σ' τ' : Type} {part : σ' → σ} {replace : σ' → σ → σ'} {part' : τ' → τ}
    {replace' : τ' → τ → τ'} {s : σ'} {t : τ'} {post : α → β → σ' → τ' → Prop}
    {failed : σ' → τ' → Prop}
    (h : Coupled x (part s) y (part' t) (fun a b s' t' => post a b (replace s s') (replace' t t'))
      (fun s' t' => failed (replace s s') (replace' t t'))) :
    Coupled (Action.within part replace x) s (Action.within part' replace' y) t post failed := by
  cases h with
  | ok hx hy h => exact .ok (by rw [Action.within, hx]) (by rw [Action.within, hy]) h
  | failure hx hy h => exact .failure (by rw [Action.within, hx]) (by rw [Action.within, hy]) h
  | trap hx hy => exact .trap (by rw [Action.within, hx]) (by rw [Action.within, hy])

theorem restate {k : ε → ε'} (h : Coupled x s y t post failed) :
    Coupled (Action.restate k x) s (Action.restate k y) t post failed := by
  cases h with
  | ok hx hy h => exact .ok (by rw [Action.restate, hx]) (by rw [Action.restate, hy]) h
  | failure hx hy h =>
    exact .failure (by rw [Action.restate, hx]; rfl) (by rw [Action.restate, hy]; rfl) h
  | trap hx hy => exact .trap (by rw [Action.restate, hx]; rfl) (by rw [Action.restate, hy]; rfl)

theorem attempt {post : Except ε α → Except ε β → σ → τ → Prop} {failed' : σ → τ → Prop}
    (h : Coupled x s y t (fun a b s' t' => post (.ok a) (.ok b) s' t')
      (fun s' t' => ∀ e, post (.error e) (.error e) s' t')) :
    Coupled (Action.attempt x : Action ε' σ _) s (Action.attempt y : Action ε' τ _) t post
      failed' := by
  cases h with
  | ok hx hy h => exact .ok (by rw [Action.attempt, hx]) (by rw [Action.attempt, hy]) h
  | failure hx hy h =>
    exact .ok (by rw [Action.attempt, hx]) (by rw [Action.attempt, hy]) (h _)
  | trap hx hy => exact .trap (by rw [Action.attempt, hx]) (by rw [Action.attempt, hy])

end Coupled

end Action

end ExtentVolume
