import VitaUtility.Dmass.FileSys
import VitaUtility.Dmass.Listing

/-!
# Stats and listings of a represented file system

`vop_get_stat` and `vop_get_stat_by_fd` copy the `stat` of an entry. A caller that opens a directory, reads until
nothing comes and closes it leaves the driver as it was, and has seen the children of the directory once each.
-/

namespace VitaUtility.Dmass
open VfsState

variable {s s' s₀ : VfsState} {k : Answers} {r : Int} {a d e : Addr} {u v w : NodePtr} {f : FapsDmassFs} {h : FilePtr}
  {c : CStr} {p : List CStr} {x : PathNode FilePtr UInt8} {A : FileSys} {cs : List Addr} {q : Option Addr} {n : Nat}

/-! ### Stats -/

structure SceVfsStat where
  node : NodePtr
  fileInfo : SceVfsPath

structure SceVfsStatByFd where
  node : NodePtr
  pVfsFileObject : FilePtr

/-- The copied `stat` comes with the result. -/
def vopGetStat (argp : SceVfsStat) (s : VfsState) : Except Fault (Int × Option SceIoStat) := do
  match ← getFsEntry argp.fileInfo.path s with
  | .error res => return (res, none)
  | .ok pEntry =>
  let (_, f) ← s.deref pEntry
  return (0, some f.stat)

def vopGetStatByFd (argp : SceVfsStatByFd) (s : VfsState) : Except Fault (Int × Option SceIoStat) := do
  let n ← s.node argp.node
  match n.devInfo with
  | none => return (-2, none)
  | some pEntry =>
  let f ← s.entry pEntry
  return (0, some f.stat)

/-- `stat` is right about `x`. -/
def Shows (x : PathNode FilePtr UInt8) (stat : SceIoStat) : Prop :=
  match x with
  | .dir => isDir stat.stMode
  | .file F => isReg stat.stMode ∧ stat.stSize = F.data.length

theorem EntryHolds.shows (hx : EntryHolds s e x) (hf : s.entries.lookup e = some f) : Shows x f.stat := by
  obtain ⟨f', hf', hx⟩ := hx
  obtain rfl := Option.some.inj (hf.symm.trans hf')
  cases x with
  | dir => exact hx.1
  | file F => exact ⟨hx.reg, hx.size⟩

theorem vopGetStat_resolves {argp : SceVfsStat} (he : Resolves s argp.fileInfo.path e)
    (hf : s.entries.lookup e = some f) : vopGetStat argp s = .ok (0, some f.stat) := by
  refine bind_eq_ok.2 ⟨_, he, bind_eq_ok.2 ⟨(e, f), ?_, rfl⟩⟩
  exact deref_eq_ok.2 ⟨rfl, hf⟩

theorem vopGetStat_fails {argp : SceVfsStat} (hr : getFsEntry argp.fileInfo.path s = .ok (.error r)) :
    vopGetStat argp s = .ok (r, none) :=
  bind_eq_ok.2 ⟨_, hr, rfl⟩

theorem vopGetStatByFd_entry (hv : s.devInfo v = some e) (hf : s.entries.lookup e = some f) :
    vopGetStatByFd ⟨v, h⟩ s = .ok (0, some f.stat) := by
  obtain ⟨n, hn, hd⟩ := devInfo_eq_some.1 hv
  refine bind_eq_ok.2 ⟨n, node_eq_ok.2 hn, ?_⟩
  rw [hd]
  exact bind_eq_ok.2 ⟨f, entry_eq_ok.2 hf, rfl⟩

/-- The stats of the paths of names: those of the map, for every vnode of the path too. -/
def StatsAgree (s : VfsState) (A : FileSys) : Prop :=
  ∀ p, (∀ c ∈ p, IsName c) → ∀ u c,
    match A.find p with
    | none => ∃ r < 0, vopGetStat ⟨u, c, some (pathStr p)⟩ s = .ok (r, none)
    | some x => ∃ stat, vopGetStat ⟨u, c, some (pathStr p)⟩ s = .ok (0, some stat) ∧ Shows x stat ∧
      ∀ v h, A.nodes v = some p → vopGetStatByFd ⟨v, h⟩ s = .ok (0, some stat)

theorem Represents.statsAgree (hR : Represents s A) : StatsAgree s A := by
  intro p hp u c
  cases hx : A.find p with
  | none =>
    obtain ⟨r, hr, hpath⟩ := hR.fails hp hx
    exact ⟨r, hr, vopGetStat_fails hpath⟩
  | some x =>
    obtain ⟨e, he, hw, hholds⟩ := hR.resolves hp hx
    obtain ⟨f, hf⟩ := hholds.live
    refine ⟨f.stat, vopGetStat_resolves he hf, hholds.shows hf, fun v h hv => ?_⟩
    -- the vnode's entry is the one that the path leads to
    obtain ⟨d, hd, hwd⟩ := (hR.map.nodes v p).1 hv
    obtain rfl := Option.some.inj (hR.form.isTree.walk_unique DirGraph.Open_none hwd hw)
    exact vopGetStatByFd_entry hd hf

/-! ### Listings -/

/-- `vop_dread` until it hands out nothing, at most `n` times. -/
def readDir (argp : SceVfsDread) : Nat → VfsState → Except Fault (List SceIoDirent × VfsState)
  | 0, s => .ok ([], s)
  | n + 1, s => do
    let (_, dir, s) ← vopDread argp s
    match dir with
    | none => return ([], s)
    | some dir =>
    let (dirs, s) ← readDir argp n s
    return (dir :: dirs, s)

/-- A whole listing: the directory is opened, read and closed. -/
def listDir (k : Answers) (v : NodePtr) (h : FilePtr) (n : Nat) (s : VfsState) :
    Except Fault (Int × List SceIoDirent × VfsState) := do
  let (r, s) ← vopDopen k ⟨v, h⟩ s
  if r < 0 then return (r, [], s) else
  let (dirs, s) ← readDir ⟨v, h⟩ n s
  let (r, s) ← vopDclose ⟨v, h⟩ s
  return (r, dirs, s)

/-- The state while the handle `h`, whose object is the block `a`, lists `d` and its cursor is `q`. -/
def listingState (s : VfsState) (d a : Addr) (h : FilePtr) (q : Option Addr) : VfsState :=
  { s.modEntry d fun f => { f with
      pDmassFsX := ⟨a, h.toInt32, q⟩ :: f.pDmassFsX
      refer := f.refer + 1 } with
    bufs := insert a s.bufs }

/-- What `vop_dread` says about the child `b`. -/
def direntOf (s : VfsState) (b : Addr) (dir : SceIoDirent) : Prop :=
  ∃ c f, s.nameOf b = some c ∧ s.entries.lookup b = some f ∧ dir = ⟨c.take 0xFF, f.stat⟩

theorem lookup_listingState (b : Addr) : (listingState s d a h q).entries.lookup b = if b = d then
    (s.entries.lookup d).map fun f => { f with pDmassFsX := ⟨a, h.toInt32, q⟩ :: f.pDmassFsX, refer := f.refer + 1 }
    else s.entries.lookup b :=
  lookup_modifyAt _ _ _ _

theorem listingState_lookup (hf : s.entries.lookup d = some f) : (listingState s d a h q).entries.lookup d =
    some { f with pDmassFsX := ⟨a, h.toInt32, q⟩ :: f.pDmassFsX, refer := f.refer + 1 } := by
  rw [lookup_listingState, if_pos rfl, hf]
  rfl

/-- The listing changes neither the name nor the `stat` nor the `next` of an entry. -/
theorem listingState_entry {b : Addr} {g : FapsDmassFs} (hg : s.entries.lookup b = some g) :
    ∃ g', (listingState s d a h q).entries.lookup b = some g' ∧ g'.name = g.name ∧ g'.stat = g.stat ∧
      g'.next = g.next := by
  rw [lookup_listingState]
  split
  · subst b
    rw [hg]
    exact ⟨_, rfl, rfl, rfl, rfl⟩
  · exact ⟨g, hg, rfl, rfl, rfl⟩

theorem listingState_eq (hf : s.entries.lookup d = some f) : listingState s d a h q =
    { s with
      entries := s.entries.insert d { f with pDmassFsX := ⟨a, h.toInt32, q⟩ :: f.pDmassFsX, refer := f.refer + 1 }
      bufs := insert a s.bufs } := by
  unfold listingState modEntry
  simp only [modifyAt_eq hf]

theorem vopDopen_listing (hk : k.mallocs) (hv : s.devInfo v = some d) (hf : s.entries.lookup d = some f) :
    ∃ a ∉ s.live, vopDopen k ⟨v, h⟩ s = .ok (0, listingState s d a h f.nextDir) := by
  obtain ⟨n, hn, hd⟩ := devInfo_eq_some.1 hv
  obtain ⟨a, ha⟩ := Option.isSome_iff_exists.1 (hk 0 s.live)
  have hmalloc : s.malloc k 0 = (some a.1, { s with bufs := insert a.1 s.bufs }) := by
    unfold malloc
    rw [ha]
  refine ⟨a.1, a.2, bind_eq_ok.2 ⟨n, node_eq_ok.2 hn, ?_⟩⟩
  rw [hd]
  refine bind_eq_ok.2 ⟨(some a.1, listingState s d a.1 h none), ?_, ?_⟩
  · unfold createDmassCtlData
    rw [hmalloc]
    exact bind_eq_ok.2 ⟨f, entry_eq_ok.2 hf, rfl⟩
  · -- the cursor of the new object is set through a second write to the entry
    rw [listingState_eq hf, listingState_eq hf]
    unfold modEntry
    simp only [modifyAt_insert]
    rfl

theorem vopDread_listing {b : Addr} {g : FapsDmassFs} {m : NameBlock} (hv : s.devInfo v = some d)
    (hf : s.entries.lookup d = some f) (hg : s.entries.lookup b = some g) (hm : g.name = some m) :
    vopDread ⟨v, h⟩ (listingState s d a h (some b)) =
      .ok (1, some ⟨m.str.take 0xFF, g.stat⟩, listingState s d a h g.next) := by
  have hv' : (listingState s d a h (some b)).devInfo v = some d := hv
  obtain ⟨g', hg', hname, hstat, hnext⟩ := listingState_entry (d := d) (a := a) (h := h) (q := some b) hg
  have hdread := vopDread_next hv' (listingState_lookup hf) (if_pos rfl) rfl hg' (hname.trans hm)
  have hmoved : cursorMoved (listingState s d a h (some b)) d h g.next = listingState s d a h g.next := by
    rw [listingState_eq hf, listingState_eq hf]
    unfold cursorMoved modEntry
    simp [modifyAt_insert, modCtlData]
  rw [hdread, hstat, hnext, hmoved]

theorem vopDread_listed (hv : s.devInfo v = some d) (hf : s.entries.lookup d = some f) :
    vopDread ⟨v, h⟩ (listingState s d a h none) = .ok (0, none, listingState s d a h none) := by
  have hv' : (listingState s d a h none).devInfo v = some d := hv
  exact vopDread_end hv' (listingState_lookup hf) (if_pos rfl) rfl

theorem vopDclose_listing (hv : s.devInfo v = some d) (hf : s.entries.lookup d = some f) (ha : a ∉ s.live) :
    vopDclose ⟨v, h⟩ (listingState s d a h q) = .ok (0, s) := by
  obtain ⟨n, hn, hd⟩ := devInfo_eq_some.1 hv
  have hbufs : a ∉ s.bufs := fun hmem => ha (mem_live.2 (.inr hmem))
  refine bind_eq_ok.2 ⟨n, node_eq_ok.2 hn, ?_⟩
  rw [hd]
  refine bind_eq_ok.2 ⟨_, entry_eq_ok.2 (listingState_lookup hf), ?_⟩
  simp only [searchDmassCtlData, if_true]
  refine bind_eq_ok.2 ⟨(0, s), ?_, rfl⟩
  refine bind_eq_ok.2 ⟨_, entry_eq_ok.2 (listingState_lookup hf), ?_⟩
  simp only [unlinkCtlData, if_true]
  rw [listingState_eq hf]
  unfold modEntry dmassFree
  simp only [modifyAt_insert, UInt32.add_sub_cancel, Finset.erase_insert hbufs, insert_lookup_self hf]
  rfl

theorem readDir_listing (hv : s.devInfo v = some d) (hf : s.entries.lookup d = some f) (hl : Chain s.next? q cs)
    (hname : ∀ b ∈ cs, ∃ c, s.nameOf b = some c) (hn : cs.length ≤ n) :
    ∃ dirs, readDir ⟨v, h⟩ n (listingState s d a h q) = .ok (dirs, listingState s d a h none) ∧
      List.Forall₂ (direntOf s) cs dirs := by
  induction cs generalizing q n with
  | nil =>
    obtain rfl := hl
    refine ⟨[], ?_, .nil⟩
    cases n with
    | zero => rfl
    | succ n => exact bind_eq_ok.2 ⟨_, vopDread_listed hv hf, rfl⟩
  | cons b cs ih =>
    obtain ⟨rfl, q', hq, hrest⟩ := hl
    obtain ⟨g, hg, rfl⟩ := Option.map_eq_some_iff.1 hq
    obtain ⟨c, hc⟩ := hname b (List.mem_cons_self ..)
    obtain ⟨g', m, hg', hm, rfl⟩ := nameOf_eq_some.1 hc
    obtain rfl := Option.some.inj (hg.symm.trans hg')
    cases n with
    | zero => exact absurd hn (Nat.not_succ_le_zero _)
    | succ n =>
      obtain ⟨dirs, hdirs, hall⟩ := ih hrest (fun b hb => hname b (List.mem_cons_of_mem _ hb)) (Nat.le_of_succ_le_succ hn)
      refine ⟨_ :: dirs, bind_eq_ok.2 ⟨_, vopDread_listing hv hf hg hm, bind_eq_ok.2 ⟨_, hdirs, rfl⟩⟩, ?_⟩
      exact .cons ⟨_, g, hc, hg, rfl⟩ hall

/-- A whole listing reports the children in their order, and leaves nothing behind. -/
theorem listDir_kids (hk : k.mallocs) (hv : s.devInfo v = some d) (hf : s.entries.lookup d = some f)
    (hK : s.Kids (some d) cs) (hname : ∀ b ∈ cs, ∃ c, s.nameOf b = some c) (hn : cs.length ≤ n) :
    ∃ dirs, listDir k v h n s = .ok (0, dirs, s) ∧ List.Forall₂ (direntOf s) cs dirs := by
  obtain ⟨a, ha, hopen⟩ := vopDopen_listing (h := h) hk hv hf
  have hhead : s.head (some d) = f.nextDir := by
    rw [head_some, hf]
    rfl
  have hl : Chain s.next? f.nextDir cs := hhead ▸ hK
  obtain ⟨dirs, hdirs, hall⟩ := readDir_listing (a := a) (h := h) hv hf hl hname hn
  refine ⟨dirs, bind_eq_ok.2 ⟨_, hopen, bind_eq_ok.2 ⟨_, hdirs, bind_eq_ok.2 ⟨_, vopDclose_listing hv hf ha, rfl⟩⟩⟩, hall⟩

/-- `dirs` has the children of the path `p` once each, with their names, cut off after 255 characters, and stats. -/
def Lists (A : FileSys) (p : List CStr) (dirs : List SceIoDirent) : Prop :=
  ∃ names : List CStr, names.Nodup ∧ (∀ c, c ∈ names ↔ A.find (p ++ [c]) ≠ none) ∧
    List.Forall₂ (fun c dir => dir.dName = c.take 0xFF ∧ ∃ x, A.find (p ++ [c]) = some x ∧ Shows x dir.dStat) names dirs

/-- The names of the children are those of the map. -/
theorem Represents.child_named (hR : Represents s A) (hw : (nameGraph s).Walk none p (some d)) (ha : s.child (some d) a) :
    ∃ c, s.nameOf a = some c ∧ (nameGraph s).Walk none (p ++ [c]) (some a) := by
  obtain ⟨c, hc, -⟩ := hR.form.named (some d) a ⟨p, hw⟩ ha
  exact ⟨c, hc, DirGraph.Walk_snoc.2 ⟨some d, a, hw, ha, hc, rfl⟩⟩

theorem Represents.lists (hR : Represents s A) (hw : (nameGraph s).Walk none p (some d)) (hK : s.Kids (some d) cs)
    {dirs : List SceIoDirent} (hdirs : List.Forall₂ (direntOf s) cs dirs) : Lists A p dirs := by
  have hkid : ∀ b ∈ cs, ∃ c, s.nameOf b = some c ∧ (nameGraph s).Walk none (p ++ [c]) (some b) := by
    intro b hb
    exact hR.child_named hw ((child_iff hK).2 hb)
  have hname : ∀ b ∈ cs, s.nameOf b = some ((s.nameOf b).getD []) := by
    intro b hb
    obtain ⟨c, hc, -⟩ := hkid b hb
    simp [hc]
  refine ⟨cs.map fun b => (s.nameOf b).getD [], ?_, fun c => ?_, ?_⟩
  · -- siblings have different names
    refine List.Nodup.map_on (fun a ha b hb hab => ?_) hK.nodup
    refine hR.form.sib (some d) a b ⟨p, hw⟩ ((child_iff hK).2 ha) ((child_iff hK).2 hb) ?_
    rw [hname a ha, hname b hb, hab]
  · rw [List.mem_map]
    constructor
    · rintro ⟨b, hb, rfl⟩
      obtain ⟨c, hc, hwb⟩ := hkid b hb
      obtain ⟨x, hx, -⟩ := hR.map.found _ b hwb
      simp [hc, hx]
    · intro hne
      obtain ⟨x, hx⟩ := Option.ne_none_iff_exists'.1 hne
      obtain ⟨b, hwb, -⟩ := hR.map.of_find hx
      obtain ⟨y, b', hy, hb, hc, heq⟩ := DirGraph.Walk_snoc.1 hwb
      obtain rfl := Option.some.inj heq
      obtain rfl := hR.form.isTree.walk_unique DirGraph.Open_none hw hy
      have hc' : s.nameOf b = some c := hc
      exact ⟨b, (child_iff hK).1 hb, by simp [hc']⟩
  · rw [List.forall₂_map_left_iff]
    refine ((List.forall₂_and_left (p := (· ∈ cs)) _ _).2 ⟨fun b hb => hb, hdirs⟩).imp ?_
    rintro b dir ⟨hb, c, f, hc, hf, rfl⟩
    obtain ⟨c', hc', hwb⟩ := hkid b hb
    obtain rfl := Option.some.inj (hc.symm.trans hc')
    obtain ⟨x, hx, hholds⟩ := hR.map.found _ b hwb
    refine ⟨by simp [hc], x, ?_, hholds.shows hf⟩
    simpa [hc] using hx

theorem Represents.lists_listDir (hR : Represents s A) (hk : k.mallocs) (hu : A.nodes u = some p)
    (hn : s.entries.keys.card ≤ n) : ∃ dirs, listDir k u h n s = .ok (0, dirs, s) ∧ Lists A p dirs := by
  obtain ⟨d, hd, hw⟩ := (hR.map.nodes u p).1 hu
  obtain ⟨f, hf⟩ := hR.holds_live hw
  obtain ⟨cs, hK⟩ := hR.form.lists.kids (some d)
  have hcard : cs.length ≤ s.entries.keys.card := by
    refine hK.length_le fun b hb => ?_
    obtain ⟨g, hg⟩ := Kids_live hK hb
    exact mem_keys_iff.2 ⟨g, hg⟩
  have hname : ∀ b ∈ cs, ∃ c, s.nameOf b = some c := by
    intro b hb
    obtain ⟨c, hc, -⟩ := hR.child_named hw ((child_iff hK).2 hb)
    exact ⟨c, hc⟩
  obtain ⟨dirs, hrun, hall⟩ := listDir_kids (h := h) hk hd hf hK hname (hcard.trans hn)
  exact ⟨dirs, hrun, hR.lists hw hK hall⟩

/-! ### After any calls -/

end VitaUtility.Dmass
