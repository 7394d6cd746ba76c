import ExtentVolume.Proofs.Operations

namespace ExtentVolume

inductive Request where
  | create (parent : UInt32) (name : String) (mode : Mode) (owner : Owner) (now : Int64)
  | createInode (owner : Owner) (mode : Mode) (now : Int64)
  | insert (dir : UInt32) (name : String) (target : UInt32) (now : Int64)
  | remove (parent : UInt32) (name : String) (now : Int64)
  | write (number : UInt32) (offset : Nat) (bytes : List UInt8) (now : Int64)
  | allocateExtent (number count : UInt32)

namespace Request

/-- The call comes to an end in `v`, with an answer or an error, and leaves `v'`. -/
def Returns : Request → Volume → Volume → Prop
  | create parent name mode owner now => Action.Returns (Volume.create parent name mode owner now)
  | createInode owner mode now => Action.Returns (Volume.createInode owner mode now)
  | insert dir name target now => Action.Returns (Volume.insert dir name target now)
  | remove parent name now => Action.Returns (Volume.remove parent name now)
  | write number offset bytes now => Action.Returns (Volume.write number offset bytes now)
  | allocateExtent number count => Action.Returns (Volume.allocateExtent number count)

def Reaches (v : Volume) : Request → UInt32 → Prop
  | create parent _ _ _ _, n => n = parent ∨ v.live? n = none
  | createInode _ _ _, n => v.live? n = none
  | insert dir _ target _, n => n = dir ∨ n = target
  | remove parent name _, n => n = parent ∨ v.lookup parent name = .ok (some n)
  | write number _ _ _, n => n = number
  | allocateExtent number _, n => n = number

/-- Calls that came to an end led from `v` to `v'`. -/
abbrev Run : Volume → Volume → Prop := Relation.ReflTransGen fun v v' => ∃ r : Request, r.Returns v v'

variable {v v' : Volume} {r : Request}

open Volume in
theorem turns (h : v.Whole) (hr : r.Returns v v') : Turns (r.Reaches v) v v' := by
  cases r with
  | create parent name mode owner now =>
    exact (create_ensures h parent name mode owner now).of_returns hr
  | createInode owner mode now =>
    refine ((createInode_ensures h owner mode now).run.mono ?_ ?_ id).of_returns hr
    · rintro node v' ⟨hrun, hcreated⟩
      exact .single ⟨node.number, hcreated.fresh, .creation rfl hrun⟩
    · rintro _ v' ⟨-, rfl, -⟩
      exact .refl
  | insert dir name target now =>
    refine ((insert_ensures h dir name target now).mono ?_ ?_ id).of_returns hr
    · rintro _ v' ⟨v₁, hedited, hrelinked⟩
      have hstep := hrelinked.step
      obtain ⟨node, -, hlive, -⟩ := hrelinked
      exact (hedited.turns (.inl rfl)).tail ⟨target, .inr rfl, .step hlive hstep⟩
    · rintro _ v' (rfl | hedited)
      · exact .refl
      · exact hedited.turns (.inl rfl)
  | remove parent name now =>
    refine ((remove_ensures h parent name now).mono ?_ ?_ id).of_returns hr
    · rintro n v' ⟨hfound, hturns⟩
      refine Relation.ReflTransGen.mono ?_ _ _ hturns
      rintro v₁ v₂ ⟨m, rfl | rfl, hturn⟩
      · exact ⟨m, .inl rfl, hturn⟩
      · exact ⟨m, .inr hfound, hturn⟩
    · rintro _ v' rfl
      exact .refl
  | write number offset bytes now =>
    have hedited : ∀ {node w}, v.live? number = some node → OpenInode.Steps (v.opened node) w →
        Turns (Reaches v (write number offset bytes now)) v (v.putBack number w) := by
      intro node w hlive hsteps
      exact Edited.turns ⟨node, w, hlive, hsteps, rfl⟩ rfl
    refine ((write_ensures h number offset bytes now).mono ?_ ?_ id).of_returns hr
    · rintro _ v' ⟨node, w, hlive, -, rfl, hsteps, -⟩
      exact hedited hlive hsteps
    · rintro _ v' (⟨rfl, -⟩ | ⟨node, w, hlive, rfl, hsteps, -⟩)
      · exact .refl
      · exact hedited hlive hsteps
  | allocateExtent number count =>
    refine ((allocateExtent_ensures h number count).mono ?_ ?_ id).of_returns hr
    · rintro _ v' ⟨node, node', blocks, hlive, halloc, rfl⟩
      exact .single ⟨number, rfl, .step hlive (.edit hlive (.grow halloc))⟩
    · rintro _ v' rfl
      exact .refl

theorem steps (h : v.Whole) (hr : r.Returns v v') : Volume.Steps (r.Reaches v) v v' :=
  (turns h hr).steps h

theorem whole (h : v.Whole) (hr : r.Returns v v') : v'.Whole := (steps h hr).whole h

theorem sound (h : v.Sound) (hr : r.Returns v v') : v'.Sound := (steps h.whole hr).sound h

theorem Run.sound (hrun : Run v v') (h : v.Sound) : v'.Sound := by
  induction hrun with
  | refl => exact h
  | tail _ hr ih =>
    obtain ⟨r, hr⟩ := hr
    exact Request.sound ih hr

end Request

end ExtentVolume
