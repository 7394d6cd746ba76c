import ExtentVolume.Proofs.Boot
import ExtentVolume.Proofs.Rehearsal
import ExtentVolume.Proofs.Saved
import ExtentVolume.Shell.Session

namespace ExtentVolume

open BlockDevice

namespace Shell

/-- The session is in the root, one directory up, where it was, or in a directory below. -/
inductive Session.Moves (s : Session) : Session → Prop where
  | root : Moves s { s with path := [] }
  | up : Moves s { s with path := s.path.dropLast }
  | stay : Moves s s
  | down {name : String} {n : UInt32} (hfound : s.resolve name = .ok n)
      (hkind : s.kindOf n = some .directory) : Moves s { s with path := s.path ++ [(name, n)] }

theorem Session.Moves.mounted {s s' : Session} (h : s.Moves s') : s'.mounted = s.mounted := by
  cases h <;> rfl

namespace Console

variable {α β : Type} {c : Console}

/-- However the step ends, it leaves the session as it is. -/
def Quiet (x : Run α) : Prop :=
  ∀ c, Action.Leaves x c (·.session = c.session)

theorem Quiet.bind {x : Run α} {f : α → Run β} (hx : Quiet x) (hf : ∀ a, Quiet (f a)) :
    Quiet (x >>= f) := by
  intro c
  rw [Action.Leaves, Action.ensures_bind]
  refine (hx c).imp fun a c₁ hc₁ => ?_
  rw [← hc₁]
  exact hf a c₁

theorem quiet_pure (a : α) : Quiet (pure a) := fun _ => rfl

theorem quiet_fail (e : VolumeError) : Quiet (Action.fail e : Run α) := fun _ => rfl

theorem quiet_lift (x : Fallible VolumeError α) : Quiet (liftM x : Run α) := fun _ =>
  Action.ensures_lift.2 (Fallible.ensures_cases (fun _ _ => rfl) fun _ => rfl)

theorem quiet_current : Quiet current := fun _ => rfl

theorem quiet_printLine (pieces : List Piece) : Quiet (printLine pieces) := fun _ => rfl

theorem quiet_forM {f : α → Run Unit} (hf : ∀ a, Quiet (f a)) (l : List α) : Quiet (l.forM f) := by
  induction l with
  | nil => exact quiet_pure _
  | cons a l ih =>
    rw [List.forM_eq_forM, List.forM_cons]
    exact (hf a).bind fun _ => ih

theorem quiet_throw (stop : Stop VolumeError) : Quiet (throw stop : Run α) := by
  intro c
  cases stop with
  | failure e => rfl
  | trap t => trivial

theorem quiet_list : Quiet list := by
  refine quiet_current.bind fun s => (quiet_printLine _).bind fun _ => ?_
  -- what follows a conditional step is shared by its branches
  extract_lets entries
  have hentries : ∀ u, Quiet (entries u) := fun _ => by
    refine (quiet_lift _).bind fun dir => (quiet_forM (fun entry => ?_) _).bind fun _ => ?_
    · split
      · split <;> exact quiet_printLine _
      · exact quiet_printLine _
    · split
      · exact quiet_pure _
      · exact quiet_throw _
  split
  · exact (quiet_printLine _).bind hentries
  · exact hentries ()

theorem quiet_stat (name : String) : Quiet (stat name) := by
  refine quiet_current.bind fun s => ?_
  extract_lets describe
  have hdescribe : ∀ number, Quiet (describe number) := fun number => by
    dsimp only [describe]
    split
    · iterate 13 refine (quiet_printLine _).bind fun _ => ?_
      exact quiet_forM (fun _ => quiet_printLine _) _
    · exact quiet_fail _
  split
  · exact (quiet_pure _).bind hdescribe
  · exact (quiet_lift _).bind hdescribe

theorem quiet_diskFree : Quiet diskFree := by
  refine quiet_current.bind fun s => ?_
  iterate 5 refine (quiet_printLine _).bind fun _ => ?_
  exact quiet_printLine _

theorem quiet_checkVolume : Quiet checkVolume := by
  refine quiet_current.bind fun s => Quiet.bind (fun c => ?_) fun report => fun _ => rfl
  rw [Action.Leaves, Action.ensures_checked]
  split
  · rfl
  · trivial

theorem Quiet.keeps {x : Run α} (hx : Quiet x) (P : Session → Prop) (hc : P c.session) :
    Action.Leaves x c (P ·.session) :=
  (hx c).mono (fun _ _ h => h ▸ hc) (fun _ _ h => h ▸ hc) id

theorem ensures_current {P : Session → Console → Prop} {F : VolumeError → Console → Prop}
    {T : Prop} : Action.Ensures current c P F T ↔ P c.session c := Iff.rfl

theorem ensures_removal {x : Fallible VolumeError UInt32} {refuses : UInt32 → Prop}
    [DecidablePred refuses] {e : VolumeError} {name text : String} {now : Int64}
    (P F : Session → Prop) (hc : F c.session)
    (hremove : Action.Ensures (onVolume (Volume.remove c.session.cwd name now)) c
      (fun _ c' => P c'.session) (fun _ c' => F c'.session) True) :
    Action.Ensures (do
        let number ← x
        if refuses number then Action.fail e
        let _ ← onVolume (Volume.remove c.session.cwd name now)
        printText text : Run Unit) c (fun _ c' => P c'.session) (fun _ c' => F c'.session) True := by
  rw [Action.ensures_bind, Action.ensures_lift]
  refine Fallible.ensures_cases (fun number _ => ?_) fun _ => hc
  split
  · exact hc
  · exact Action.ensures_bind.2 hremove

theorem changeDirectory_moves (c : Console) (path : String) :
    Action.Leaves (changeDirectory path) c (c.session.Moves ·.session) := by
  rw [changeDirectory, Action.Leaves, Action.ensures_bind, ensures_current]
  extract_lets done
  have hdone : ∀ u, Quiet (done u) := fun _ =>
    quiet_current.bind fun s' => quiet_printLine _
  have hmove : ∀ p, c.session.Moves { c.session with path := p } →
      Action.Leaves (setPath p >>= done) c (c.session.Moves ·.session) := by
    intro p hp
    rw [Action.Leaves, Action.ensures_bind, setPath, Action.ensures_modify]
    exact (hdone ()).keeps c.session.Moves hp
  split
  · exact hmove [] .root
  split
  · exact hmove _ .up
  split
  · rw [Action.ensures_bind, Action.ensures_lift]
    refine Fallible.ensures_cases (fun number hfound => ?_) fun _ => .stay
    split
    · exact .stay
    · rename_i hkind
      exact hmove _ (.down hfound (not_not.1 hkind))
  · exact (hdone ()).keeps c.session.Moves .stay

theorem sync_saved (h : c.session.mounted.Working) :
    Action.Ensures sync c (fun _ c' => c'.session.mounted.Saved) (fun _ _ => False) False := by
  rw [sync, onMounted, Action.ensures_within]
  exact h.sync_ensures.mono (fun _ _ hsaved => hsaved.1) (fun _ _ => False.elim) False.elim

theorem create_saved (h : c.session.mounted.Saved) (now : Int64) (name : String) (mode : Mode) :
    Action.Ensures (create now name mode) c (fun _ c' => c'.session.mounted.Working)
      (fun _ c' => c'.session.mounted.Saved)
      (c.session.volume.Overflows c.session.cwd name mode default now) := by
  simp only [create, current, onVolume, onMounted, Action.ensures_bind, Action.ensures_get,
    Action.ensures_pure, Action.ensures_within]
  exact h.create c.session.cwd name mode default now

theorem remove_saved (h : c.session.mounted.Saved) (parent : UInt32) (name : String)
    (now : Int64) :
    Action.Ensures (onVolume (Volume.remove parent name now)) c
      (fun _ c' => c'.session.mounted.Working) (fun _ c' => c'.session.mounted.Saved) True := by
  rw [onVolume, onMounted, Action.ensures_within]
  exact (h.remove parent name now).mono (fun _ _ hw => hw) (fun _ _ hs => hs) False.elim

theorem write_saved (h : c.session.mounted.Saved) (now : Int64) (name text : String)
    (appends : Bool) :
    Action.Ensures (write now name text appends) c (fun _ c' => c'.session.mounted.Working)
      (fun _ c' => c'.session.mounted.Saved) True := by
  rw [write, Action.ensures_bind, ensures_current, Action.ensures_bind, Action.ensures_lift]
  refine Fallible.ensures_cases (fun found _ => ?_) fun _ => h
  extract_lets bytes store
  have hstore : ∀ number c', c'.session.mounted.Working → Action.Ensures (store number) c'
      (fun _ c' => c'.session.mounted.Working) (fun _ c' => c'.session.mounted.Saved) True := by
    intro number c' hc'
    dsimp only [store]
    rw [Action.ensures_bind, ensures_current, Action.ensures_bind, Action.ensures_attempt, onVolume,
      onMounted, Action.ensures_within]
    refine (hc'.write _ _ _ _).mono (fun _ _ hw => hw) (fun e m hw => ?_) id
    rw [Action.ensures_bind]
    exact (sync_saved hw).mono (fun _ _ hs => hs) (fun _ _ => False.elim) False.elim
  split
  · exact hstore _ c h.toWorking
  · rw [Action.ensures_bind]
    exact (create_saved h now name .defaultFile).mono (fun number => hstore number)
      (fun _ _ hs => hs) fun _ => trivial

theorem format_saved (h : c.session.mounted.Saved) (ambient : Ambient) :
    Action.Ensures (format ambient) c (fun _ c' => c'.session.mounted.Saved)
      (fun _ c' => c'.session.mounted.Saved) True := by
  rw [format]
  split
  · rw [Action.ensures_bind, ensures_current, Action.ensures_bind, onMounted, Action.ensures_within]
    refine (h.toWorking.reformat _ _ _).mono (fun _ _ hs => hs.1) (fun _ m' hkept => ?_) False.elim
    rw [hkept]
    exact h
  · exact h

theorem perform_saved (h : c.session.mounted.Saved) (ambient : Ambient) (command : Command) :
    Action.Ensures (perform ambient command) c
      (fun _ c' => if command.mutates then c'.session.mounted.Working else c'.session.mounted.Saved)
      (fun _ c' => c'.session.mounted.Saved) True := by
  have hquiet : ∀ {x : Run Unit}, Quiet x → Action.Ensures x c
      (fun _ c' => c'.session.mounted.Saved) (fun _ c' => c'.session.mounted.Saved) True :=
    fun hx => hx.keeps (·.mounted.Saved) h
  cases command with
  | help => exact hquiet (quiet_printLine _)
  | ls => exact hquiet quiet_list
  | pwd => exact hquiet (quiet_current.bind fun s => quiet_printLine _)
  | mkdir name =>
    rw [perform, Action.ensures_bind]
    exact (create_saved h ambient.now name .defaultDirectory).mono (fun _ _ hw => hw)
      (fun _ _ hs => hs) fun _ => trivial
  | rmdir name =>
    rw [perform, Action.ensures_bind, ensures_current]
    exact ensures_removal (·.mounted.Working) (·.mounted.Saved) h
      (remove_saved h c.session.cwd name ambient.now)
  | create name =>
    rw [perform, Action.ensures_bind]
    exact (create_saved h ambient.now name .defaultFile).mono (fun _ _ hw => hw)
      (fun _ _ hs => hs) fun _ => trivial
  | rm name =>
    rw [perform, Action.ensures_bind, ensures_current]
    exact ensures_removal (·.mounted.Working) (·.mounted.Saved) h
      (remove_saved h c.session.cwd name ambient.now)
  | cd path =>
    exact (changeDirectory_moves c path).mono (fun _ _ hmoves => hmoves.mounted ▸ h)
      (fun _ _ hmoves => hmoves.mounted ▸ h) id
  | read name =>
    exact hquiet (quiet_current.bind fun s => (quiet_lift _).bind fun number =>
      (quiet_lift _).bind fun bytes => (quiet_printLine _).bind fun _ => quiet_printLine _)
  | write name text => exact write_saved h ambient.now name text false
  | append name text => exact write_saved h ambient.now name text true
  | stat name => exact hquiet (quiet_stat name)
  | df => exact hquiet quiet_diskFree
  | fsck => exact hquiet quiet_checkVolume
  | format => exact format_saved h ambient
  | exit =>
    rw [perform, Action.ensures_bind]
    exact (sync_saved h.toWorking).mono (fun _ _ hs => hs) (fun _ _ => False.elim) False.elim

theorem execute_saved (h : c.session.mounted.Saved) (ambient : Ambient) (command : Command) :
    Action.Leaves (execute ambient command) c (·.session.mounted.Saved) := by
  rw [execute, Action.Leaves, Action.ensures_bind]
  refine (perform_saved h ambient command).imp fun _ c' hc' => ?_
  split
  · rename_i hmutates
    rw [if_pos hmutates] at hc'
    exact (sync_saved hc').mono (fun _ _ hs => hs) (fun _ _ => False.elim) False.elim
  · rename_i hmutates
    rw [if_neg hmutates] at hc'
    exact hc'

theorem execute_creation (h : c.session.mounted.Working) (ambient : Ambient) (command : Command)
    {name printed : String} {mode : Mode} {n : UInt32} {v : Volume}
    (hperform : perform ambient command = do
      let _ ← create ambient.now name mode
      printText (printed ++ (← current).childPath name)) (hmutates : command.mutates = true)
    (hcreate : Volume.create c.session.cwd name mode default ambient.now c.session.volume = .ok n v) :
    Action.Ensures (execute ambient command) c
      (fun _ c' => c'.session.path = c.session.path ∧ c'.session.volume.members = v.members)
      (fun _ _ => False) False := by
  have hr : (Request.create c.session.cwd name mode default ambient.now).Returns
      c.session.volume v := .inl ⟨n, hcreate⟩
  rw [execute, hperform, Action.ensures_bind, Action.ensures_bind, create, Action.ensures_bind,
    ensures_current, onVolume, onMounted, Action.ensures_within, Mounted.onVolume,
    Action.ensures_within]
  refine (Action.ensures_of_ok hcreate).2 ?_
  rw [Action.ensures_bind, ensures_current, printText, printLine, Action.ensures_modify,
    if_pos hmutates, sync, onMounted, Action.ensures_within]
  exact (h.call hr id).sync_ensures.mono (fun _ _ hsynced => ⟨rfl, hsynced.2⟩) (fun _ _ => id) id

end Console

namespace Session

/-- A command came to an end, with an error or without. -/
def Step (s s' : Session) : Prop :=
  ∃ (ambient : Ambient) (command : Command) (output : Array Piece) (c : Console),
    Action.Returns (Console.execute ambient command) ⟨s, output⟩ c ∧ c.session = s'

abbrev Runs : Session → Session → Prop := Relation.ReflTransGen Step

variable {s s' : Session}

theorem Step.saved (hstep : Step s s') (h : s.mounted.Saved) : s'.mounted.Saved := by
  obtain ⟨ambient, command, output, c, hreturns, rfl⟩ := hstep
  exact (Console.execute_saved (c := ⟨s, output⟩) h ambient command).of_returns hreturns

theorem Runs.saved (hrun : Runs s s') (h : s.mounted.Saved) : s'.mounted.Saved := by
  induction hrun with
  | refl => exact h
  | tail _ hstep ih => exact hstep.saved ih

end Session

end Shell

theorem Mounted.Saved.boot {m : Mounted ImageDisk} (h : m.Saved) (g : Geometry) (id : VolumeId)
    (now : Int64) :
    ∃ boot m', Boot.run (some m.disk.image) g false id now = .ok boot ∧ boot.result = .ok m' ∧
      Restored m.volume m'.volume := by
  have hwhole := h.regular.sound.whole
  have hvalid : m.disk.image.WellFormed := h.maintains.1.1
  obtain ⟨boot, disk, hboot, hmaintains, -, hsize, hresult⟩ :=
    @Boot.run_ok (some m.disk.image) hvalid g false id now
  have hroom : m.volume.geometry.deviceBlocks ≤ disk.blockCount :=
    Nat.le_trans h.room (Nat.le_trans (ImageDisk.blockCount_le h.maintains.2.readable) hsize)
  have hshows : Shows disk m.volume.geometry.deviceBlocks (FaithfulDevice.held m.disk) :=
    ⟨Nat.le_of_lt m.volume.geometry.deviceBlocks_lt,
      fun n hn => hmaintains.readBlock (Nat.lt_of_lt_of_le hn hroom)⟩
  obtain ⟨root, hlive, hdirectory⟩ := Volume.live_of_isDirectory h.anchored.directory
  have hroot : (m.volume.table.get? m.volume.superBlock.root).any (·.isDirectory) = true := by
    rw [h.regular.layout.root_eq, SuperBlock.rootNumber, (Volume.live?_eq_some.1 hlive).2]
    exact hdirectory
  have hmount := Volume.mount_eq hwhole h.regular.layout h.stored hshows hroom
  rw [if_pos hroot] at hmount
  refine ⟨boot, ⟨m.volume.reloaded _, disk⟩, hboot, ?_,
    (h.stored.sameFiles hwhole).restored hwhole rfl⟩
  rw [hresult]
  exact congrArg (Functor.map fun volume => (⟨volume, disk⟩ : Mounted ImageDisk)) hmount

section Formatting

variable {file? : Option (List UInt8)} {g : Geometry} {forceFormat : Bool} {id : VolumeId}
  {now : Int64} {boot : Boot} {m : Mounted ImageDisk}

/-- A boot without an image, or one that is told to, takes its volume from the format of a disk. -/
theorem Boot.format_of_run (hformats : file? = none ∨ forceFormat = true)
    (hboot : Boot.run (file?.map .ofBytes) g forceFormat id now = .ok boot)
    (hresult : boot.result = .ok m) :
    ∃ (disk : ImageDisk) (c : Nat → Block), Maintains disk.blockCount disk c ∧
      Volume.format g id now disk = .ok m.volume m.disk := by
  have himage : Image.WellFormed ((file?.map .ofBytes).getD .empty) := by
    cases file? with
    | none => rfl
    | some bytes => exact Image.wellFormed_ofBytes bytes
  have hformats : ((file?.map Image.ofBytes).isNone || forceFormat) = true := by
    obtain rfl | rfl := hformats
    · rfl
    · exact Bool.or_true _
  obtain ⟨boot', disk, hboot', hmaintains, -, -, hformat⟩ :=
    Boot.run_ok himage g forceFormat id now
  obtain rfl := Except.ok.inj (hboot'.symm.trans hboot)
  rw [hresult, if_pos hformats] at hformat
  unfold formatDisk at hformat
  split at hformat
  · rename_i v d' hrun
    obtain rfl := Except.ok.inj hformat
    exact ⟨disk, _, hmaintains, hrun⟩
  · cases hformat

theorem Boot.saved_of_run (hformats : file? = none ∨ forceFormat = true)
    (hboot : Boot.run (file?.map .ofBytes) g forceFormat id now = .ok boot)
    (hresult : boot.result = .ok m) : m.Saved := by
  obtain ⟨disk, c, hmaintains, hformat⟩ := Boot.format_of_run hformats hboot hresult
  exact Mounted.saved_of_format hmaintains hformat

end Formatting

/-- Where there is no image, a boot makes one with a new volume. -/
theorem Boot.run_none {g : Geometry} (hinodes : 1 < g.inodes.toNat) (hblocks : 0 < g.blocks.toNat)
    (id : VolumeId) (now : Int64) :
    ∃ boot m, Boot.run none g false id now = .ok boot ∧ boot.result = .ok m ∧ m.Saved ∧
      (Draft.fresh g).Fits m.volume := by
  obtain ⟨boot, m, hboot, hresult⟩ := @Boot.run_formats none rfl g false rfl hinodes hblocks id now
  obtain ⟨disk, c, hmaintains, hformat⟩ :=
    @Boot.format_of_run none _ _ _ _ _ _ (.inl rfl) hboot hresult
  exact ⟨boot, m, hboot, hresult, Mounted.saved_of_format hmaintains hformat,
    Draft.fits_of_formatted (Volume.formatted_of_format hformat)⟩

open Shell in
/-- In every session on a volume that a boot has formatted, after every command that comes to an end,
with an error or without, a boot from the image mounts the volume that the session has in memory,
whatever geometry it is given. -/
theorem session_leaves_nothing_unsaved (file? : Option (List UInt8)) (g : Geometry)
    (forceFormat : Bool) (id : VolumeId) (now : Int64) (boot : Boot) (m : Mounted ImageDisk)
    (s : Session) (hformats : file? = none ∨ forceFormat = true)
    (hboot : Boot.run (file?.map .ofBytes) g forceFormat id now = .ok boot)
    (hresult : boot.result = .ok m) (hrun : Session.Runs ⟨m, [], g⟩ s) (g' : Geometry)
    (id' : VolumeId) (now' : Int64) :
    ∃ boot' m', Boot.run (some s.mounted.disk.image) g' false id' now' = .ok boot' ∧
      boot'.result = .ok m' ∧ Restored s.volume m'.volume := by
  have hsaved := Boot.saved_of_run hformats hboot hresult
  exact (hrun.saved hsaved).boot g' id' now'

open Shell in
/-- A session that makes a file. -/
theorem session_with_a_file_is_saved : ∃ (boot boot' : Boot) (m m' : Mounted ImageDisk)
    (s : Session), Boot.run none ⟨4, 4⟩ false ⟨.replicate 16 0⟩ 0 = .ok boot ∧ boot.result = .ok m ∧
      m.volume.lookup 1 "a" = .ok none ∧ Session.Step ⟨m, [], ⟨4, 4⟩⟩ s ∧
      s.volume.lookup 1 "a" = .ok (some 2) ∧
      Boot.run (some s.mounted.disk.image) ⟨9, 9⟩ false ⟨.replicate 16 0⟩ 0 = .ok boot' ∧
      boot'.result = .ok m' ∧ Restored s.volume m'.volume := by
  obtain ⟨boot, m, hboot, hresult, hsaved, hfits⟩ :=
    @Boot.run_none ⟨4, 4⟩ (by decide) (by decide) ⟨.replicate 16 0⟩ 0
  have hdraft : ((Draft.fresh ⟨4, 4⟩).next? (.create 1 "a" .defaultFile default 0)).any
      (fun p => p.ns.isDirectory 1 && p.ns.lookup 1 "a" == some 2) = true := by
    decide +kernel
  obtain ⟨p, hp, hnamed⟩ := (Option.any_eq_true _ _).1 hdraft
  rw [Bool.and_eq_true, beq_iff_eq] at hnamed
  obtain ⟨hdirectory, hfound⟩ := hnamed
  obtain ⟨k, v, hcreate, hmade⟩ := hfits.create hp
  have hcwd : Session.cwd ⟨m, [], ⟨4, 4⟩⟩ = 1 := hsaved.regular.layout.root_eq
  obtain ⟨⟨⟩, c, hexecute, -, hmembers⟩ := (Console.execute_creation
    (c := ⟨⟨m, [], ⟨4, 4⟩⟩, #[]⟩) hsaved.toWorking ⟨0, ⟨.replicate 16 0⟩, false⟩ (.create "a") rfl
    rfl (hcwd ▸ hcreate)).exists_ok (fun _ _ => id) id
  have hstep : Session.Step ⟨m, [], ⟨4, 4⟩⟩ c.session := ⟨_, _, _, c, .inl ⟨⟨⟩, hexecute⟩, rfl⟩
  have hfresh : m.volume.lookup 1 "a" = .ok none := by
    rw [hfits.sound.lookup_ok (hfits.members ▸ rfl), hfits.members]
    rfl
  have hthere : c.session.volume.lookup 1 "a" = .ok (some 2) := by
    rw [← hmade.members, ← hmembers] at hdirectory hfound
    exact hfound ▸ (hstep.saved hsaved).regular.sound.lookup_ok hdirectory "a"
  obtain ⟨boot', m', hboot', hresult', hrestored⟩ := session_leaves_nothing_unsaved none ⟨4, 4⟩
    false ⟨.replicate 16 0⟩ 0 boot m c.session (.inl rfl) hboot hresult (.single hstep) ⟨9, 9⟩
    ⟨.replicate 16 0⟩ 0
  exact ⟨boot, boot', m, m', c.session, hboot, hresult, hfresh, hstep, hthere, hboot', hresult',
    hrestored⟩

end ExtentVolume
