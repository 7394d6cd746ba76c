import ExtentVolume.Proofs.Persistence
import ExtentVolume.Proofs.TwinVolumes

namespace ExtentVolume

open BlockDevice ExtentVolume.Action

inductive Answer where
  | done
  | number (n : UInt32)
  | record (node : Inode)
  | found (n : Option UInt32)
  | listing (l : Directory.Listing)
  | bytes (l : List UInt8)
  | written (count : Nat)
  | extent (e : Extent)
  | report (r : Consistency.Report)
  | metadata (superBlock : SuperBlock) (space : FreeSpace) (table : InodeTable)

inductive Failure where
  | volume (e : VolumeError)
  | write (e : WriteFailure)
  | notMounted

def Action.told {ε σ α : Type} (x : Action ε σ α) (answer : α → Answer) (failure : ε → Failure) :
    Action Failure σ Answer := do
  return answer (← x.restate failure)

def Request.perform : Request → Action Failure Volume Answer
  | create parent name mode owner now =>
    (Volume.create parent name mode owner now).told .number .volume
  | createInode owner mode now => (Volume.createInode owner mode now).told .record .volume
  | insert dir name target now => (Volume.insert dir name target now).told (fun _ => .done) .volume
  | remove parent name now => (Volume.remove parent name now).told .number .volume
  | write number offset bytes now => (Volume.write number offset bytes now).told .written .write
  | allocateExtent number count => (Volume.allocateExtent number count).told .extent .volume

/-- The questions to a volume, which leave it as it is. -/
inductive Query where
  | lookup (dir : UInt32) (name : String)
  | list (dir : UInt32) (position limit : Nat)
  | read (number : UInt32) (offset length : Nat)
  | readAll (number : UInt32)
  | check
  | metadata

def Query.answer (v : Volume) : Query → Fallible Failure Answer
  | lookup dir name => return .found (← (v.lookup dir name).restate .volume)
  | list dir position limit => return .listing (← (v.list dir position limit).restate .volume)
  | read number offset length => return .bytes (← (v.read number offset length).restate .volume)
  | readAll number => return .bytes (← (v.readAll number).restate .volume)
  | check => return .report (← Consistency.check v)
  | metadata => return .metadata v.superBlock v.space v.table

/-- A device with the volume that is mounted on it, if one is. -/
structure Host (D : Type) where
  volume : Option Volume
  disk : D

inductive Call where
  | change (r : Request)
  | ask (q : Query)
  | sync
  | reformat (g : Geometry) (id : VolumeId) (now : Int64)
  | remount

namespace Host

variable {D : Type} [BlockDevice D]

def onMounted (x : Action Failure (Mounted D) Answer) : Action Failure (Host D) Answer := do
  let some volume := (← get).volume | Action.fail .notMounted
  Action.within (⟨volume, ·.disk⟩) (fun _ m => ⟨some m.volume, m.disk⟩) x

def perform : Call → Action Failure (Host D) Answer
  | .change r => onMounted (Mounted.onVolume r.perform)
  | .ask q => onMounted do q.answer (← get).volume
  | .sync => onMounted (Mounted.sync.told (fun _ => .done) .volume)
  | .reformat g id now => onMounted ((Mounted.reformat g id now).told (fun _ => .done) .volume)
  | .remount => do
    let disk := (← get).disk
    set (⟨none, disk⟩ : Host D)
    let volume ← (Volume.mount disk).restate Failure.volume
    set (⟨some volume, disk⟩ : Host D)
    return .done

def answers : List Call → Host D → List (Except (Stop Failure) Answer)
  | [], _ => []
  | c :: rest, h => match perform c h with
    | .ok a h' => .ok a :: answers rest h'
    | .error (.failure e) h' => .error (.failure e) :: answers rest h'
    | .error (.trap t) _ => [.error (.trap t)]

end Host

/-- All that is told by a format and by the calls after it. -/
def transcript {D : Type} [BlockDevice D] (g : Geometry) (id : VolumeId) (now : Int64)
    (calls : List Call) (d : D) : List (Except (Stop Failure) Answer) :=
  match Volume.format g id now d with
  | .ok v d' => .ok .done :: Host.answers calls ⟨some v, d'⟩
  | .error e _ => [.error (e.map .volume)]

theorem Action.Coupled.told {ε σ τ α : Type} {x : Action ε σ α} {y : Action ε τ α} {s : σ} {t : τ}
    {same : σ → τ → Prop} {answer : α → Answer} {failure : ε → Failure} (h : Agrees x s y t same) :
    Agrees (x.told answer failure) s (y.told answer failure) t same :=
  .seq h.restate fun _ _ _ hsame => .pure ⟨rfl, hsame⟩

namespace Volume

variable {v v' : Volume}

theorem Twins.perform (h : Twins v v') (hv : v.Whole) (r : Request) :
    Alike r.perform v v' Twins := by
  cases r with
  | create parent name mode owner now => exact (h.create hv parent name mode owner now).told
  | createInode owner mode now => exact (h.createInode hv owner mode now).told
  | insert dir name target now => exact (h.insert hv dir name target now).told
  | remove parent name now => exact (h.remove hv parent name now).told
  | write number offset bytes now => exact (h.write hv number offset bytes now).told
  | allocateExtent number count => exact (h.allocateExtent hv number count).told

theorem Twins.answer (h : Twins v v') (hv : v.Whole) (q : Query) : q.answer v' = q.answer v := by
  have hsame := (h.sameFiles hv).sameAt hv
  cases q with
  | lookup dir name => rw [Query.answer, Query.answer, (hsame dir).lookup hv]
  | list dir position limit => rw [Query.answer, Query.answer, (hsame dir).list hv]
  | read number offset length => rw [Query.answer, Query.answer, (hsame number).read hv]
  | readAll number => rw [Query.answer, Query.answer, (hsame number).readAll hv]
  | check => rw [Query.answer, Query.answer, Consistency.check_congr h.space h.table]
  | metadata => rw [Query.answer, Query.answer, h.superBlock, h.space, h.table]

end Volume

theorem Action.returns_of_told {ε σ α : Type} {x : Action ε σ α} {answer : α → Answer}
    {failure : ε → Failure} {s s' : σ} (h : Returns (x.told answer failure) s s') :
    Returns x s s' := by
  have hends : Ensures (x.told answer failure) s (fun _ => Returns x s) (fun _ => Returns x s)
      True := by
    simp only [told, ensures_bind, ensures_restate, ensures_pure]
    unfold Ensures
    cases hx : x s with
    | ok a s' => exact .inl ⟨a, hx⟩
    | error stop s' => cases stop with
      | failure e => exact .inr ⟨e, hx⟩
      | trap t => trivial
  exact hends.of_returns h

theorem Request.returns_of_perform {r : Request} {v v' : Volume}
    (h : Action.Returns r.perform v v') : r.Returns v v' := by
  cases r <;> exact Action.returns_of_told h

theorem Mounted.onVolume_ok {D ε α : Type} {m : Mounted D} {x : Action ε Volume α} {a : α}
    {v : Volume} (h : x m.volume = .ok a v) : onVolume x m = .ok a { m with volume := v } := by
  rw [onVolume, within, h]

namespace Mounted

variable {D E : Type} [BlockDevice D] [BlockDevice E] [ReliableDevice D] [ReliableDevice E]
  {m : Mounted D} {n : Mounted E}

def Twins (m : Mounted D) (n : Mounted E) : Prop :=
  ∃ w z, Usage.Safe ⟨m.volume, m.disk, some w⟩ ∧ Usage.Safe ⟨n.volume, n.disk, some z⟩ ∧
    w.Twins z ∧ m.volume.Twins n.volume ∧ blockCount n.disk = blockCount m.disk

theorem Twins.change (h : Twins m n) (r : Request) :
    Agrees (onVolume r.perform) m (onVolume r.perform) n Twins := by
  obtain ⟨w, z, hm, hn, hsynced, hvolumes, hcount⟩ := h
  have hstep : ∀ v v', Action.Returns r.perform m.volume v → Action.Returns r.perform n.volume v' →
      v.Twins v' → Twins { m with volume := v } { n with volume := v' } :=
    fun v v' hr hr' ht => ⟨w, z, hm.step (.call (Request.returns_of_perform hr)),
      hn.step (.call (Request.returns_of_perform hr')), hsynced, ht, hcount⟩
  refine .within ?_
  cases hvolumes.perform hm.fits.sound.whole r with
  | ok hx hy h => exact .ok hx hy ⟨h.1, hstep _ _ (.inl ⟨_, hx⟩) (.inl ⟨_, hy⟩) h.2⟩
  | failure hx hy h => exact .failure hx hy (hstep _ _ (.inr ⟨_, hx⟩) (.inr ⟨_, hy⟩) h)
  | trap hx hy => exact .trap hx hy

theorem Twins.ask (h : Twins m n) (q : Query) :
    Agrees (do q.answer (← get).volume : Action Failure (Mounted D) Answer) m
      (do q.answer (← get).volume : Action Failure (Mounted E) Answer) n Twins := by
  obtain ⟨w, z, hm, hn, hsynced, hvolumes, hcount⟩ := id h
  refine .get_bind ?_
  rw [hvolumes.answer hm.fits.sound.whole]
  exact .lift_self h fun _ _ => ⟨rfl, h⟩

theorem sync_twins {synced synced' : Option Volume} (hm : Usage.Safe ⟨m.volume, m.disk, synced⟩)
    (hn : Usage.Safe ⟨n.volume, n.disk, synced'⟩) (hvolumes : m.volume.Twins n.volume)
    (hcount : blockCount n.disk = blockCount m.disk) :
    Coupled sync m sync n (fun a b m' n' => a = b ∧ Twins m' n') (fun _ _ => False) := by
  obtain ⟨m', hsync⟩ := hm.sync_ok
  obtain ⟨n', hsync'⟩ := hn.sync_ok
  obtain ⟨hm', hsettled, hcount₁⟩ := hm.sync_ensures.of_ok hsync
  obtain ⟨hn', hsettled', hcount₂⟩ := hn.sync_ensures.of_ok hsync'
  have hsuper : n'.volume.superBlock = m'.volume.superBlock := by
    rw [hsettled'.superBlock, hsettled.superBlock, Volume.counted, Volume.counted,
      hvolumes.superBlock, hvolumes.space]
  have htwins :=
    hvolumes.congr hm.fits.sound.whole hsettled.toSameFiles hsettled'.toSameFiles hsuper
  exact .ok hsync hsync' ⟨rfl, _, _, hm', hn', htwins, htwins,
    hcount₂.trans (hcount.trans hcount₁.symm)⟩

theorem Twins.sync (h : Twins m n) : Agrees Mounted.sync m Mounted.sync n Twins := by
  obtain ⟨w, z, hm, hn, -, hvolumes, hcount⟩ := h
  exact (sync_twins hm hn hvolumes hcount).mono (fun _ _ _ _ => id) fun _ _ => False.elim

theorem Twins.mount (h : Twins m n) : (Volume.mount m.disk).Coupled (Volume.mount n.disk)
    (fun v v' => Twins ⟨v, m.disk⟩ ⟨v', n.disk⟩) := by
  obtain ⟨w, z, hm, hn, hsynced, -, hcount⟩ := h
  have hread : Readable m.disk := fun _ hb => ReliableDevice.read_ok hm.valid hb
  have hread' : Readable n.disk := fun _ hb => ReliableDevice.read_ok hn.valid hb
  have hmount := hm.mount_eq rfl (hm.shows rfl hread)
  have hmount' := hn.mount_eq rfl (hn.shows rfl hread')
  rw [hsynced.table, hsynced.superBlock] at hmount'
  split at hmount
  · rename_i hroot
    rw [if_pos hroot] at hmount'
    obtain ⟨hfits, hstored⟩ := hm.synced w rfl
    obtain ⟨hfits', hstored'⟩ := hn.synced z rfl
    refine .ok hmount hmount' ⟨w, z, hm.step (.mount (Option.some_ne_none w) hmount),
      hn.step (.mount (Option.some_ne_none z) hmount'), hsynced, ?_, hcount⟩
    exact hsynced.congr hfits.sound.whole (hstored.sameFiles hfits.sound.whole)
      (hstored'.sameFiles hfits'.sound.whole) hsynced.superBlock
  · rename_i hroot
    rw [if_neg hroot] at hmount'
    exact .error hmount hmount'

theorem root_twins {d : D} {e : E} (hvalid : FaithfulDevice.Valid d)
    (hvalid' : FaithfulDevice.Valid e) (hcount : blockCount e = blockCount d) {g : Geometry}
    (hroom : Volume.HasRoom g (blockCount d)) (id : VolumeId) (now : Int64) :
    ∃ v, Volume.makeRoot now (Volume.unrooted g id now) = .ok () v ∧
      Coupled sync ⟨v, d⟩ sync ⟨v, e⟩ (fun a b m n => a = b ∧ Twins m n) (fun _ _ => False) := by
  obtain ⟨v, hroot, hformatted, hbacked⟩ := Volume.makeRoot_ok hroom id now now
  have hm : Usage.Safe ⟨v, d, none⟩ :=
    ⟨hvalid, Usage.fits_formatted hformatted hroom, hbacked _, by rintro w ⟨⟩⟩
  have hn : Usage.Safe ⟨v, e, none⟩ :=
    ⟨hvalid', Usage.fits_formatted hformatted (hcount ▸ hroom), hbacked _, by rintro w ⟨⟩⟩
  exact ⟨v, hroot, sync_twins (m := ⟨v, d⟩) (n := ⟨v, e⟩) hm hn (.refl v) hcount⟩

theorem Twins.reformat (h : Twins m n) (g : Geometry) (id : VolumeId) (now : Int64) :
    Agrees (Mounted.reformat g id now) m (Mounted.reformat g id now) n Twins := by
  have hkept := h
  obtain ⟨w, z, hm, hn, -, -, hcount⟩ := h
  unfold Mounted.reformat
  refine .get_bind ?_
  rw [hcount]
  refine .lift_bind_self hkept fun blank hblank => ?_
  obtain ⟨rfl, hroom⟩ := (Volume.blank_ensures _ g id now).of_ok hblank
  obtain ⟨v, hroot, hsync⟩ := root_twins hm.valid hn.valid hcount hroom id now
  refine .modify_bind (.bind (.ok (onVolume_ok hroot) (onVolume_ok hroot) ?_))
  exact hsync.mono (fun _ _ _ _ h => h) fun _ _ => False.elim

end Mounted

theorem Volume.format_twins {D E : Type} [BlockDevice D] [BlockDevice E] [ReliableDevice D]
    [ReliableDevice E] {d : D} {e : E} (hvalid : FaithfulDevice.Valid d)
    (hvalid' : FaithfulDevice.Valid e) (hcount : blockCount e = blockCount d) (g : Geometry)
    (id : VolumeId) (now : Int64) :
    Coupled (Volume.format g id now) d (Volume.format g id now) e
      (fun v v' d' e' => Mounted.Twins ⟨v, d'⟩ ⟨v', e'⟩) (fun _ _ => True) := by
  unfold Volume.format
  refine .get_bind ?_
  rw [hcount]
  refine .lift_bind_self trivial fun blank hblank => ?_
  obtain ⟨rfl, hroom⟩ := (Volume.blank_ensures _ g id now).of_ok hblank
  obtain ⟨v, hroot, hsync⟩ := Mounted.root_twins hvalid hvalid' hcount hroom id now
  refine .within (.bind (.ok (Mounted.onVolume_ok hroot) (Mounted.onVolume_ok hroot) ?_))
  refine .bind (hsync.mono ?_ fun _ _ => False.elim)
  rintro _ _ m n ⟨-, htwins⟩
  exact .get_bind (.pure htwins)

namespace Host

variable {D E : Type} [BlockDevice D] [BlockDevice E] [ReliableDevice D] [ReliableDevice E]

/-- Twins are mounted, or were before they were dropped. -/
inductive Twins : Host D → Host E → Prop where
  | mounted {m : Mounted D} {n : Mounted E} (h : m.Twins n) :
      Twins ⟨some m.volume, m.disk⟩ ⟨some n.volume, n.disk⟩
  | dropped {m : Mounted D} {n : Mounted E} (h : m.Twins n) : Twins ⟨none, m.disk⟩ ⟨none, n.disk⟩

variable {h : Host D} {k : Host E}

theorem Twins.onMounted {x : Action Failure (Mounted D) Answer}
    {y : Action Failure (Mounted E) Answer} (hk : Twins h k) (hxy : ∀ m n, m.Twins n → Agrees x m y n Mounted.Twins) :
    Agrees (onMounted x) h (onMounted y) k Twins := by
  unfold Host.onMounted
  refine .get_bind ?_
  cases hk with
  | dropped htwins => exact .fail (.dropped htwins)
  | @mounted m n htwins =>
    refine .within ((hxy m n htwins).mono ?_ fun _ _ => .mounted)
    rintro _ _ m' n' ⟨rfl, htwins'⟩
    exact ⟨rfl, .mounted htwins'⟩

theorem Twins.perform (hk : Twins h k) (c : Call) : Agrees (perform c) h (perform c) k Twins := by
  cases c with
  | change r => exact hk.onMounted fun m n htwins => htwins.change r
  | ask q => exact hk.onMounted fun m n htwins => htwins.ask q
  | sync => exact hk.onMounted fun m n htwins => htwins.sync.told
  | reformat g id now => exact hk.onMounted fun m n htwins => (htwins.reformat g id now).told
  | remount =>
    obtain ⟨m, n, htwins, hdisk, hdisk'⟩ : ∃ (m : Mounted D) (n : Mounted E), m.Twins n ∧
        h.disk = m.disk ∧ k.disk = n.disk := by
      cases hk with
      | @mounted m n htwins => exact ⟨m, n, htwins, rfl, rfl⟩
      | @dropped m n htwins => exact ⟨m, n, htwins, rfl, rfl⟩
    refine .get_bind ?_
    rw [hdisk, hdisk']
    refine .set_bind (.lift_bind htwins.mount.restate (.dropped htwins) ?_)
    intro v v' _ hmounted
    exact .set_bind (.pure ⟨rfl, .mounted hmounted⟩)

theorem Twins.answers (hk : Twins h k) (calls : List Call) : answers calls k = answers calls h := by
  induction calls generalizing h k with
  | nil => rfl
  | cons c rest ih =>
    rw [Host.answers, Host.answers]
    cases hk.perform c with
    | ok hx hy hends =>
      obtain ⟨rfl, htwins⟩ := hends
      simp only [hx, hy, ih htwins]
    | failure hx hy htwins => simp only [hx, hy, ih htwins]
    | trap hx hy => simp only [hx, hy]

end Host

/-- On two devices with equally many blocks that refuse nothing, a format and the same calls after
it are answered alike, whatever the devices held. -/
theorem format_hides_contents {D E : Type} [BlockDevice D] [BlockDevice E] [ReliableDevice D]
    [ReliableDevice E] (g : Geometry) (id : VolumeId) (now : Int64) (calls : List Call) (d : D)
    (e : E) (hvalid : FaithfulDevice.Valid d) (hvalid' : FaithfulDevice.Valid e)
    (hcount : blockCount e = blockCount d) :
    transcript g id now calls e = transcript g id now calls d := by
  rw [transcript, transcript]
  cases Volume.format_twins hvalid hvalid' hcount g id now with
  | ok hx hy htwins =>
    have hrest := (Host.Twins.mounted htwins).answers calls
    simp only [hx, hy]
    exact congrArg (.ok .done :: ·) hrest
  | failure hx hy => simp only [hx, hy]
  | trap hx hy => simp only [hx, hy]

/-- Bytes of a filled disk show neither in a new file, nor in what it gains, nor after a mount. -/
theorem filled_disk_answers_like_blank :
    let filled : MemoryDisk := ⟨.replicate 8 (.replicate blockSize 0xff)⟩
    let calls : List Call := [.change (.create 1 "a" .defaultFile default 0),
      .change (.allocateExtent 2 1), .sync, .remount, .change (.write 2 5000 [1] 0),
      .ask (.readAll 2)]
    blockCount filled = blockCount (MemoryDisk.blank 8) ∧
      (∃ v d', Volume.format ⟨4, 4⟩ ⟨.replicate 16 0⟩ 0 (MemoryDisk.blank 8) = .ok v d') ∧
      transcript ⟨4, 4⟩ ⟨.replicate 16 0⟩ 0 calls filled =
        transcript ⟨4, 4⟩ ⟨.replicate 16 0⟩ 0 calls (MemoryDisk.blank 8) := by
  intro filled calls
  have hcount : blockCount filled = blockCount (MemoryDisk.blank 8) := by
    change (Array.replicate 8 _).size = (Array.replicate 8 _).size
    rw [Array.size_replicate, Array.size_replicate]
  exact ⟨hcount, Volume.format_memoryDisk, format_hides_contents ⟨4, 4⟩ ⟨.replicate 16 0⟩ 0 calls
    (MemoryDisk.blank 8) filled trivial trivial hcount⟩

end ExtentVolume
