import ExtentVolume.Proofs.SavedSession
import ExtentVolume.Proofs.Trail

namespace ExtentVolume

namespace Shell

namespace Session

/-- A step of a command on a session. A command takes several. -/
inductive Turn (s : Session) : Session → Prop where
  | move {s' : Session} (hmoves : s.Moves s') : Turn s s'
  | call {r : Request} {v : Volume} (hr : r.StaysIn s.cwd) (hreturns : r.Returns s.volume v) :
      Turn s { s with mounted := { s.mounted with volume := v } }
  | sync {m : Mounted ImageDisk} (hreturns : Action.Returns Mounted.sync s.mounted m) :
      Turn s { s with mounted := m }
  | reformat {g : Geometry} {id : VolumeId} {now : Int64} {m : Mounted ImageDisk}
      (hrun : Mounted.reformat g id now s.mounted = .ok () m) :
      Turn s { s with mounted := m, path := [] }
  | keep {g : Geometry} {id : VolumeId} {now : Int64} {e : VolumeError} {m : Mounted ImageDisk}
      (hrun : Mounted.reformat g id now s.mounted = .error (.failure e) m) :
      Turn s { s with mounted := m }

abbrev Turns : Session → Session → Prop := Relation.ReflTransGen Turn

/-- The path leads through directories of a volume in use, none of which has a second name. -/
structure Grounded (s : Session) : Prop where
  working : s.mounted.Working
  linked : ∃ o, Linked s.volume.members o
  leads : s.volume.members.Leads 1 s.path

variable {s s' : Session}

theorem Grounded.cwd_eq (h : s.Grounded) : s.cwd = Namespace.tip 1 s.path := by
  rw [cwd, Volume.rootNumber, volume, h.working.regular.layout.root_eq]
  rfl

theorem Grounded.cwd_isDirectory (h : s.Grounded) : s.volume.members.isDirectory s.cwd = true := by
  rw [h.cwd_eq]
  exact h.leads.tip_isDirectory h.working.anchored.directory

theorem kindOf_eq_directory {n : UInt32} (hn : s.volume.members n ≠ none) :
    s.kindOf n = some .directory ↔ s.volume.members.isDirectory n = true := by
  obtain ⟨t, ht⟩ := Option.ne_none_iff_exists'.1 hn
  obtain ⟨node, hlive, rfl⟩ := Volume.members_eq_some ht
  rw [kindOf, (Volume.live?_eq_some.1 hlive).2, Option.bind_some, Volume.isDirectory_live hlive,
    Inode.isDirectory, beq_iff_eq]

theorem Grounded.resolve_eq_ok (h : s.Grounded) {name : String} {n : UInt32} :
    s.resolve name = .ok n ↔ s.volume.members.lookup s.cwd name = some n := by
  have hlookup : s.volume.lookup s.cwd name = .ok (s.volume.members.lookup s.cwd name) :=
    h.working.regular.sound.lookup_ok h.cwd_isDirectory name
  rw [resolve, hlookup]
  cases s.volume.members.lookup s.cwd name with
  | none =>
    constructor <;> intro hn <;> cases hn
  | some k =>
    constructor
    · intro hk
      exact congrArg some (Except.ok.inj hk)
    · intro hk
      exact congrArg Except.ok (Option.some.inj hk)

theorem Grounded.named (h : s.Grounded) {d n : UInt32} {name : String}
    (hfound : s.volume.members.lookup d name = some n) : s.volume.members n ≠ none := by
  obtain ⟨o, hlinked⟩ := h.linked
  intro hn
  have hnames := hlinked.names_fresh (Namespace.lookup_ne_zero hfound) hn
  exact Nat.ne_of_gt (Namespace.names_pos hfound) hnames

theorem Grounded.moves (h : s.Grounded) (hmoves : s.Moves s') : s'.Grounded := by
  cases hmoves with
  | root => exact ⟨h.working, h.linked, trivial⟩
  | up => exact ⟨h.working, h.linked, h.leads.dropLast⟩
  | stay => exact h
  | down hfound hkind =>
    have hlookup := h.resolve_eq_ok.1 hfound
    have hn := (kindOf_eq_directory (h.named hlookup)).1 hkind
    exact ⟨h.working, h.linked, Namespace.leads_concat.2 ⟨h.leads, h.cwd_eq ▸ hlookup, hn⟩⟩

theorem Grounded.call (h : s.Grounded) {r : Request} {v : Volume} (hr : r.StaysIn s.cwd)
    (hreturns : r.Returns s.volume v) :
    Grounded { s with mounted := { s.mounted with volume := v } } := by
  obtain ⟨o, hlinked⟩ := h.linked
  have heffect := Request.effect h.working.regular.sound hreturns
  have hinserts : ¬r.Inserts := by
    cases hr <;> exact id
  refine ⟨h.working.call hreturns hinserts, hlinked.stays heffect hr, ?_⟩
  rw [h.cwd_eq] at hr
  exact h.leads.step hlinked h.working.anchored heffect hr

theorem Grounded.turn (h : s.Grounded) (hturn : Turn s s') : s'.Grounded := by
  cases hturn with
  | move hmoves => exact h.moves hmoves
  | call hr hreturns => exact h.call hr hreturns
  | @sync m hreturns =>
    have hsynced : m.Saved ∧ m.volume.members = s.mounted.volume.members :=
      (h.working.sync_ensures.mono (fun _ _ h => h) (fun _ _ => False.elim) id).of_returns hreturns
    obtain ⟨hsaved, hmembers⟩ := hsynced
    refine ⟨hsaved.toWorking, ?_, ?_⟩
    · exact hmembers ▸ h.linked
    · exact hmembers ▸ h.leads
  | @reformat g id now m hrun =>
    obtain ⟨hsaved, hmembers⟩ := (h.working.reformat g id now).of_ok hrun
    exact ⟨hsaved.toWorking, ⟨.root, hmembers ▸ Linked.rooted⟩, trivial⟩
  | @keep g id now e m hrun =>
    obtain rfl := (h.working.reformat g id now).of_failure hrun
    exact h

theorem Grounded.turns (h : s.Grounded) (hturns : Turns s s') : s'.Grounded := by
  induction hturns with
  | refl => exact h
  | tail _ hturn ih => exact ih.turn hturn

end Session

namespace Console

variable {α β : Type} {c : Console}

/-- However the step ends, it has taken turns of a session. -/
def Turning (x : Run α) : Prop := ∀ c, Action.Leaves x c (c.session.Turns ·.session)

theorem Quiet.turning {x : Run α} (hx : Quiet x) : Turning x := fun c =>
  hx.keeps c.session.Turns .refl

theorem Turning.bind {x : Run α} {f : α → Run β} (hx : Turning x) (hf : ∀ a, Turning (f a)) :
    Turning (x >>= f) := by
  intro c
  rw [Action.Leaves, Action.ensures_bind]
  refine (hx c).imp fun a c₁ hc₁ => ?_
  exact (hf a c₁).mono (fun _ _ => hc₁.trans) (fun _ _ => hc₁.trans) id

theorem onVolume_turns {ε : Type} {x : Action ε Volume α} {r : Request}
    (hr : r.StaysIn c.session.cwd)
    (hx : ∀ v, Action.Returns x c.session.volume v → r.Returns c.session.volume v) :
    Action.Leaves (onVolume x) c (c.session.Turns ·.session) := by
  rw [Action.Leaves, onVolume, onMounted, Action.ensures_within, Mounted.onVolume,
    Action.ensures_within]
  exact Action.leaves_iff.2 fun v hreturns => .single (.call hr (hx v hreturns))

theorem turning_sync : Turning sync := by
  intro c
  rw [sync, onMounted, Action.Leaves, Action.ensures_within]
  exact Action.leaves_iff.2 fun m hreturns => .single (.sync hreturns)

theorem turning_create (now : Int64) (name : String) (mode : Mode) :
    Turning (create now name mode) := by
  intro c
  rw [create, Action.Leaves, Action.ensures_bind, ensures_current]
  exact onVolume_turns (.create name mode default now) fun _ => id

theorem turning_write (now : Int64) (name text : String) (appends : Bool) :
    Turning (write now name text appends) := by
  refine quiet_current.turning.bind fun s => (quiet_lift _).turning.bind fun found => ?_
  extract_lets bytes store
  have hstore : ∀ number, Turning (store number) := by
    intro number
    refine quiet_current.turning.bind fun s' => Turning.bind (fun c => ?_) fun written => ?_
    · rw [Action.Leaves, Action.ensures_attempt]
      exact onVolume_turns (.write number _ bytes now) fun _ => id
    · split
      · exact (quiet_printLine _).turning
      · exact turning_sync.bind fun _ => (quiet_printLine _).turning.bind fun _ =>
          (quiet_fail _).turning
  split
  · exact hstore _
  · exact (turning_create now name .defaultFile).bind hstore

theorem remove_turns (name : String) (now : Int64) :
    Action.Leaves (onVolume (Volume.remove c.session.cwd name now)) c (c.session.Turns ·.session) :=
  onVolume_turns (.remove name now) fun _ => id

theorem turning_format (ambient : Ambient) : Turning (format ambient) := by
  intro c
  rw [format]
  split
  · rw [Action.Leaves, Action.ensures_bind, ensures_current, Action.ensures_bind, onMounted,
      Action.ensures_within]
    refine (Action.leaves_true _ _).run.mono ?_ ?_ id
    · rintro ⟨⟩ m ⟨hrun, -⟩
      rw [Action.ensures_bind, setPath, Action.ensures_modify]
      exact (quiet_current.bind fun s => quiet_printLine _).keeps c.session.Turns
        (.single (.reformat hrun))
    · rintro e m ⟨hrun, -⟩
      exact .single (.keep hrun)
  · exact (quiet_printLine _).turning c

theorem turning_perform (ambient : Ambient) (command : Command) :
    Turning (perform ambient command) := by
  cases command with
  | help => exact (quiet_printLine _).turning
  | ls => exact quiet_list.turning
  | pwd => exact (quiet_current.bind fun s => quiet_printLine _).turning
  | mkdir name =>
    exact (turning_create ambient.now name .defaultDirectory).bind fun _ =>
      (quiet_current.bind fun s => quiet_printLine _).turning
  | rmdir name =>
    intro c
    rw [perform, Action.Leaves, Action.ensures_bind, ensures_current]
    exact ensures_removal c.session.Turns c.session.Turns .refl (remove_turns name ambient.now)
  | create name =>
    exact (turning_create ambient.now name .defaultFile).bind fun _ =>
      (quiet_current.bind fun s => quiet_printLine _).turning
  | rm name =>
    intro c
    rw [perform, Action.Leaves, Action.ensures_bind, ensures_current]
    exact ensures_removal c.session.Turns c.session.Turns .refl (remove_turns name ambient.now)
  | cd path =>
    intro c
    exact (changeDirectory_moves c path).mono (fun _ _ hmoves => .single (.move hmoves))
      (fun _ _ hmoves => .single (.move hmoves)) id
  | read name =>
    exact (quiet_current.bind fun s => (quiet_lift _).bind fun number =>
      (quiet_lift _).bind fun bytes => (quiet_printLine _).bind fun _ => quiet_printLine _).turning
  | write name text => exact turning_write ambient.now name text false
  | append name text => exact turning_write ambient.now name text true
  | stat name => exact (quiet_stat name).turning
  | df => exact quiet_diskFree.turning
  | fsck => exact quiet_checkVolume.turning
  | format => exact turning_format ambient
  | exit => exact turning_sync.bind fun _ => (quiet_printLine _).turning

theorem execute_cd (c : Console) (ambient : Ambient) {name : String} {n : UInt32}
    (hroot : name ≠ "/") (hup : name ≠ "..") (hstay : name ≠ ".")
    (hfound : c.session.resolve name = .ok n) (hkind : c.session.kindOf n = some .directory) :
    Action.Ensures (execute ambient (.cd name)) c
      (fun _ c' => c'.session = { c.session with path := c.session.path ++ [(name, n)] })
      (fun _ _ => False) False := by
  rw [execute, perform, Action.ensures_bind, changeDirectory, Action.ensures_bind, ensures_current,
    if_neg hroot, if_neg hup, if_pos hstay, hfound, Action.ensures_bind, Action.ensures_lift,
    Fallible.ensures_ok, if_neg (not_not.2 hkind)]
  rfl

theorem turning_execute (ambient : Ambient) (command : Command) :
    Turning (execute ambient command) := by
  refine (turning_perform ambient command).bind fun _ => ?_
  split
  · exact turning_sync
  · exact (quiet_pure ()).turning

end Console

namespace Session

variable {s s' : Session}

theorem Step.turns (hstep : Step s s') : Turns s s' := by
  obtain ⟨ambient, command, output, c, hreturns, rfl⟩ := hstep
  exact (Console.turning_execute ambient command ⟨s, output⟩).of_returns hreturns

theorem Runs.grounded (hrun : Runs s s') (h : s.Grounded) : s'.Grounded := by
  induction hrun with
  | refl => exact h
  | tail _ hstep ih => exact ih.turns hstep.turns

end Session

end Shell

theorem Shell.Session.grounded_of_run {file? : Option (List UInt8)} {g : Geometry}
    {forceFormat : Bool} {id : VolumeId} {now : Int64} {boot : Boot} {m : Mounted ImageDisk}
    (hformats : file? = none ∨ forceFormat = true)
    (hboot : Boot.run (file?.map .ofBytes) g forceFormat id now = .ok boot)
    (hresult : boot.result = .ok m) : Grounded ⟨m, [], g⟩ := by
  obtain ⟨disk, c, hmaintains, hformat⟩ := Boot.format_of_run hformats hboot hresult
  exact ⟨(Mounted.saved_of_format hmaintains hformat).toWorking,
    ⟨.root, (Volume.formatted_of_format hformat).linked⟩, trivial⟩

open Shell in
/-- In every session on a volume that a boot has formatted, after every command that comes to an end,
with an error or without, each name of the path is found in the directory before it and leads to the
directory in use that the path has beside it. -/
theorem session_path_leads (file? : Option (List UInt8)) (g : Geometry) (forceFormat : Bool)
    (id : VolumeId) (now : Int64) (boot : Boot) (m : Mounted ImageDisk) (s : Session)
    (hformats : file? = none ∨ forceFormat = true)
    (hboot : Boot.run (file?.map .ofBytes) g forceFormat id now = .ok boot)
    (hresult : boot.result = .ok m) (hrun : Session.Runs ⟨m, [], g⟩ s) :
    s.volume.Leads s.volume.rootNumber s.path ∧ ∃ node, s.volume.directory s.cwd = .ok node := by
  have hlast := hrun.grounded (Session.grounded_of_run hformats hboot hresult)
  have hsound := hlast.working.regular.sound
  constructor
  · rw [Volume.rootNumber, Session.volume, hlast.working.regular.layout.root_eq]
    exact hsound.leads hlast.working.anchored.directory hlast.leads
  · exact hsound.exists_directory hlast.cwd_isDirectory

open Shell in
/-- A session that makes a directory and enters it. -/
theorem path_of_entered_directory : ∃ (boot : Boot) (m : Mounted ImageDisk) (s : Session)
    (n : UInt32), Boot.run none ⟨4, 4⟩ false ⟨.replicate 16 0⟩ 0 = .ok boot ∧ boot.result = .ok m ∧
      Session.Runs ⟨m, [], ⟨4, 4⟩⟩ s ∧ s.path = [("a", n)] ∧
      s.volume.lookup s.volume.rootNumber "a" = .ok (some n) ∧
      ∃ node, s.volume.directory n = .ok node := by
  obtain ⟨boot, m, hboot, hresult, -, hfits⟩ :=
    @Boot.run_none ⟨4, 4⟩ (by decide) (by decide) ⟨.replicate 16 0⟩ 0
  have hstart := @Session.grounded_of_run none _ _ _ _ _ _ (.inl rfl) hboot hresult
  have hdraft : ((Draft.fresh ⟨4, 4⟩).next? (.create 1 "a" .defaultDirectory default 0)).any
      (fun p => (p.ns.lookup 1 "a").any p.ns.isDirectory) = true := by
    decide +kernel
  obtain ⟨p, hp, hentered⟩ := (Option.any_eq_true _ _).1 hdraft
  obtain ⟨n, hfound, hn⟩ := (Option.any_eq_true _ _).1 hentered
  obtain ⟨k, v, hcreate, hmade⟩ := hfits.create hp
  have hcwd : Session.cwd ⟨m, [], ⟨4, 4⟩⟩ = 1 := hstart.cwd_eq
  obtain ⟨⟨⟩, c₁, hmkdir, hpath, hmembers⟩ := (Console.execute_creation
    (c := ⟨⟨m, [], ⟨4, 4⟩⟩, #[]⟩) hstart.working ⟨0, ⟨.replicate 16 0⟩, false⟩ (.mkdir "a") rfl rfl
    (hcwd ▸ hcreate)).exists_ok (fun _ _ => id) id
  have hfirst : Session.Step ⟨m, [], ⟨4, 4⟩⟩ c₁.session := ⟨_, _, _, c₁, .inl ⟨⟨⟩, hmkdir⟩, rfl⟩
  have hthere := Session.Runs.grounded (.single hfirst) hstart
  have hcwd₁ : c₁.session.cwd = 1 := by
    rw [hthere.cwd_eq, hpath]
    rfl
  rw [← hmade.members, ← hmembers] at hfound hn
  obtain ⟨⟨⟩, c₂, hcd, hmoved⟩ := (Console.execute_cd c₁ ⟨0, ⟨.replicate 16 0⟩, false⟩
    (by decide) (by decide) (by decide) (hthere.resolve_eq_ok.2 (hcwd₁ ▸ hfound))
    ((Session.kindOf_eq_directory (hthere.named hfound)).2 hn)).exists_ok (fun _ _ => id) id
  have hrun : Session.Runs ⟨m, [], ⟨4, 4⟩⟩ c₂.session :=
    .tail (.single hfirst) ⟨_, _, _, c₂, .inl ⟨⟨⟩, hcd⟩, rfl⟩
  obtain ⟨hleads, -⟩ := session_path_leads none ⟨4, 4⟩ false ⟨.replicate 16 0⟩ 0 boot m
    c₂.session (.inl rfl) hboot hresult hrun
  have hpath₂ : c₂.session.path = [("a", n)] := by
    rw [hmoved, hpath]
    rfl
  rw [hpath₂] at hleads
  exact ⟨boot, m, c₂.session, n, hboot, hresult, hrun, hpath₂, hleads.1, hleads.2.1⟩

end ExtentVolume
