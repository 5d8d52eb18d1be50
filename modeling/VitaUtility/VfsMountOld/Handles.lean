import VitaUtility.VfsMountOld.Refresh

/-!
# The open files and directories (`main.c`)

For its callers the driver is a list of handles, the newest first: a call looks for the first one of its vnode, and changes,
adds or removes one. The links between the objects and the order of the blocks are not to be seen.
-/

namespace VitaUtility.VfsMountOld
open Dmass (Addr NodePtr Store Fault SceIoStat SceIoDirent lookup_insert_ite)

/-- The result, and what is written to `args->dir`. -/
abbrev Reply := Int32 × Option SceIoDirent

/-- What the driver keeps for an open file or directory. -/
structure Handle where
  obj : Addr
  node : Option NodePtr
  seek : Int
  size : Int
  dirEntryRoot : Option Addr
  dirEntry : Option Addr

def DataPack.handle (d : DataPack) (obj : Addr) : Handle := ⟨obj, d.node, d.seek, d.size, d.dirEntryRoot, d.dirEntry⟩

/-- A `DataPack_t` without links. -/
def Handle.pack (h : Handle) : DataPack where
  node := h.node
  seek := h.seek
  size := h.size
  dirEntryRoot := h.dirEntryRoot
  dirEntry := h.dirEntry

/-- The callbacks look at no links of an object and not at its UID. -/
def Callbacks.Local (K : Callbacks) : Prop := ∀ cb args d obj, K.data cb args d = K.data cb args (d.handle obj).pack

/-- The entries that are mounted, with their tree, and the vnode of the root. -/
structure Mount where
  entries : Store FileEntry
  tree : Forest
  rootNode : Option NodePtr
  isTree : tree.IsTree

/-! ### The list of handles -/

abbrev Table := List Handle

namespace Table
variable (T : Table)

def find (node : Option NodePtr) : Option Handle := T.find? fun h => h.node = node

/-- With `h'` in the place of `h`. -/
def put (h h' : Handle) : Table := T.map fun x => if x.obj = h.obj ∧ x.node = h.node then h' else x

def remove (h : Handle) : Table := T.filter fun x => ¬ (x.obj = h.obj ∧ x.node = h.node)

end Table

/-- What a call does to the handles. -/
inductive Change where
  | keep
  | add (h : Handle)
  | put (h h' : Handle)
  | remove (h : Handle)

def Change.apply (T : Table) : Change → Table
  | keep => T
  | add h => h :: T
  | put h h' => T.put h h'
  | remove h => T.remove h

abbrev Answer := Except Fault (Reply × Change)

/-- `h` after a callback, with the result. -/
def Handle.called (K : Callbacks) (cb : Addr) (e : FileEntry) (h : Handle) : Int32 × Handle :=
  let (res, seek, size) := K.data cb e.argsForStat h.pack
  (res, { h with seek := seek, size := size })

namespace Mount
variable (K : Callbacks) (m : Mount) (found : Option Handle)

/-- The entry that a path has, or the result if it has none. -/
def entryAt (kind : LookupKind) (path : CStr) (notFound : Int32) : Except Fault (Int32 ⊕ Addr × FileEntry) :=
  match m.tree.walk kind path m.tree.firstAddr with
  | (res, p) =>
    if res < 0 then .ok (.inl notFound) else
    match p with
    | none => .error .null
    | some a =>
      match m.entries.lookup a with
      | none => .error .freed
      | some e => .ok (.inr (a, e))

def openFile (prev : Option Handle) (node : NodePtr) (path : CStr) (flags : UInt32) (k : UidAnswer) : Answer := do
  if prev.isNone then return ((SCE_ERROR_ERRNO_ENOENT, none), .keep)
  match ← m.entryAt fileKind path SCE_ERROR_ERRNO_ENOENT with
  | .inl res => return ((res, none), .keep)
  | .inr (a, e) =>
    if flags &&& ~~~ e.openAllowFlags ≠ 0 then return ((SCE_ERROR_ERRNO_EPERM, none), .keep)
    if k.res < 0 then .error .null
    let h : Handle := ⟨k.obj, some node, 0, e.size, none, some a⟩
    match e.openCb with
    | none => return ((0, none), .add h)
    | some cb => return ((0, none), .add (h.called K cb e).2)

def close : Reply × Change :=
  match found with
  | none => ((-1, none), .keep)
  | some h => ((0, none), .remove h)

def transfer (cb? : FileEntry → Option Addr) : Answer :=
  match found with
  | none => .ok ((-1, none), .keep)
  | some h =>
    match h.dirEntry with
    | none => .error .null
    | some a =>
      match m.entries.lookup a with
      | none => .error .freed
      | some e =>
        match cb? e with
        | none => .ok ((-1, none), .keep)
        | some cb => .ok (((h.called K cb e).1, none), .put h (h.called K cb e).2)

/-- Of a directory without a `dopen_cb`. -/
def openDir (node : NodePtr) (path : CStr) (k : UidAnswer) : Answer := do
  if some node = m.rootNode then
    match found with
    | none => return ((0x80000000, none), .keep)
    | some h =>
      if h.dirEntryRoot.isNone then return ((0x80000001, none), .keep)
      return ((0, none), .put h { h with dirEntry := h.dirEntryRoot })
  else
    match ← m.entryAt dirKind path (-1) with
    | .inl res => return ((res, none), .keep)
    | .inr (_, e) =>
      if k.res < 0 then .error .null
      return ((0, none), .add ⟨k.obj, some node, 0, e.size, e.nextDir, e.nextDir⟩)

def readDir : Answer :=
  match found with
  | none => .ok ((-1, none), .keep)
  | some h =>
    match h.dirEntry with
    | none => .ok ((0, none), .keep)
    | some a =>
      match m.entries.lookup a with
      | none => .error .freed
      | some e =>
        match VfsState.direntStat K e with
        | none => .ok ((-1, none), .keep)
        | some stat => .ok ((1, some ⟨e.name.take 254, stat⟩), .put h { h with dirEntry := e.next })

/-- What a call replies and changes, by the handles of `prev_node` and of its vnode. -/
def answer (prev : Option Handle) : VfsCall → Answer
  | .open node _ path flags k => m.openFile K prev node path flags k
  | .close _ => .ok (close found)
  | .read _ => m.transfer K found FileEntry.readCb
  | .write _ => m.transfer K found FileEntry.writeCb
  | .dopen node path k _ => m.openDir found node path k
  | .dclose node => .ok (if some node = m.rootNode then ((0, none), .keep) else close found)
  | .dread _ => m.readDir K found

end Mount

def VfsCall.node : VfsCall → NodePtr
  | .open node _ _ _ _ | .close node | .read node | .write node | .dopen node _ _ _ | .dclose node | .dread node => node

def VfsCall.prevNode : VfsCall → Option NodePtr
  | .open _ prevNode _ _ _ => prevNode
  | _ => none

namespace Table
variable (K : Callbacks) (m : Mount) (T : Table)

def changed (x : Answer) : Except Fault (Reply × Table) := x.map fun (reply, change) => (reply, change.apply T)

def call (c : VfsCall) : Except Fault (Reply × Table) :=
  T.changed (m.answer K (T.find (some c.node)) (T.find c.prevNode) c)

end Table

/-- Opening the path makes again what is in the entry `e`. -/
def Mount.Refreshes (m : Mount) (path : CStr) (e : FileEntry) : Prop :=
  ∃ a, (m.tree.walk dirKind path m.tree.firstAddr).2 = some a ∧ m.entries.lookup a = some e ∧ e.dopenCb.isSome

/-- The root is not opened as a file and not closed, a new object is none of the handles, and no directory with a `dopen_cb`
is opened. -/
def Table.Allows (m : Mount) (T : Table) : VfsCall → Prop
  | .open node _ _ _ k => some node ≠ m.rootNode ∧ (0 ≤ k.res → k.obj ∉ T.map Handle.obj)
  | .close node => some node ≠ m.rootNode
  | .dopen node path k _ => some node ≠ m.rootNode → (0 ≤ k.res → k.obj ∉ T.map Handle.obj) ∧ ∀ e, ¬ m.Refreshes path e
  | _ => True

/-- The call opens no directory with a `dopen_cb`. -/
def VfsCall.Quiet (s : VfsState) : VfsCall → Prop
  | .dopen node path _ _ => some node ≠ s.rootNode → ∀ e, ¬ s.Refreshes path e
  | _ => True

/-! ### The driver's objects as handles -/

/-- The objects are the handles, and the entries the ones that are mounted. -/
structure Shows (m : Mount) (s : VfsState) (T : Table) : Prop where
  entries : s.entries = m.entries
  rootNode : s.rootNode = m.rootNode
  holds : s.Holds m.tree.firstAddr m.tree
  items : s.Items (T.map fun h => (h.obj, h.node))
  packs : ∀ h ∈ T, ∃ d, s.packs.lookup h.obj = some d ∧ d.handle h.obj = h
  only : ∀ a ∈ s.packs.keys, a ∈ T.map Handle.obj
  root : (T.find m.rootNode).map Handle.dirEntryRoot = some m.tree.firstAddr

section
variable {m : Mount} {s s' : VfsState} {T : Table} {h h' : Handle} {node : Option NodePtr} {k : UidAnswer} {a : Addr}
  {kind : LookupKind} {path : CStr} {g : DataPack → DataPack} {d : DataPack}

theorem Table.mem_of_find (hfind : T.find node = some h) : h ∈ T ∧ h.node = node :=
  ⟨List.mem_of_find?_eq_some hfind, by simpa using List.find?_some hfind⟩

theorem Table.remove_append_cons {newer older : Table} (hkeep : ∀ x ∈ newer ++ older, x.obj ≠ h.obj) :
    Table.remove (newer ++ h :: older) h = newer ++ older := by
  have hself : ∀ l : Table, (∀ x ∈ l, x ∈ newer ++ older) → l.filter (fun x => ¬ (x.obj = h.obj ∧ x.node = h.node)) = l :=
    fun l hl => List.filter_eq_self.2 fun x hx => by simp [hkeep x (hl x hx)]
  rw [remove, List.filter_append, List.filter_cons_of_neg (by simp), hself newer (by simp +contextual),
    hself older (by simp +contextual)]

/-- Replacing a handle leaves what a call finds of a vnode, up to the replacement. -/
theorem Table.find_put (hnode : h'.node = h.node) : (T.put h h').find node =
    (T.find node).map fun x => if x.obj = h.obj ∧ x.node = h.node then h' else x := by
  unfold Table.find Table.put
  rw [List.find?_map]
  refine congrArg _ (List.find?_congr fun x _ => ?_)
  simp only [Function.comp_apply]
  split
  · rename_i hx
    rw [hnode, hx.2]
  · rfl

namespace Shows

theorem nodup (hs : Shows m s T) : (T.map Handle.obj).Nodup := by
  have hnd := hs.items.nodup
  rwa [List.map_map] at hnd

theorem eq_of_obj (hs : Shows m s T) (hh : h ∈ T) (hh' : h' ∈ T) (hobj : h'.obj = h.obj) : h' = h :=
  List.inj_on_of_nodup_map hs.nodup hh' hh hobj

theorem found (hs : Shows m s T) : s.getFileEntryByNode node = .ok ((T.find node).map Handle.obj) := by
  rw [hs.items.getFileEntryByNode, List.find?_map, Option.map_map]
  rfl

theorem lookupEntry (hs : Shows m s T) : s.lookupEntry kind path = .ok (m.tree.walk kind path m.tree.firstAddr) := by
  obtain ⟨r, hr, hroot⟩ := Option.map_eq_some_iff.1 hs.root
  obtain ⟨d, hd, hdr⟩ := hs.packs r (Table.mem_of_find hr).1
  refine VfsState.lookupEntry_eq ⟨?_, hd, ?_⟩ m.isTree.stats m.isTree.addrs
  · rw [hs.found, hs.rootNode, hr]
    rfl
  · have hfirst : d.dirEntryRoot = m.tree.firstAddr := (congrArg Handle.dirEntryRoot hdr).trans hroot
    rw [hfirst]
    exact hs.holds

theorem getDirEntry (hs : Shows m s T) : s.getDirEntry path = .ok (m.tree.walk dirKind path m.tree.firstAddr) :=
  hs.lookupEntry

/-- The entry at the end of a walk is there. -/
theorem entry_of_walk (hs : Shows m s T) (hwalk : (m.tree.walk kind path m.tree.firstAddr).2 = some a) :
    ∃ e, m.entries.lookup a = some e := by
  have hmem : a ∈ m.tree.addrs := by
    rcases Forest.walk_mem hwalk with hfirst | hmem
    · exact Forest.first_mem (hfirst ▸ hs.holds)
    · exact hmem
  obtain ⟨e, -, he, -⟩ := Forest.exists_replaced hs.holds hmem
  exact ⟨e, hs.entries ▸ he⟩

/-- A write to an object that leaves its links and its vnode, and if it is the root the tree. -/
theorem modPack (hs : Shows m s T) (hh : h ∈ T) (hroot : h.node = m.rootNode → h'.dirEntryRoot = h.dirEntryRoot)
    (hnode : h'.node = h.node) (hg : ∀ d, d.handle h.obj = h →
      (g d).handle h.obj = h' ∧ ((g d).node, (g d).next, (g d).prev) = (d.node, d.next, d.prev)) :
    ∃ s', s.modPack h.obj g = .ok s' ∧ Shows m s' (T.put h h') := by
  obtain ⟨d, hd, hdh⟩ := hs.packs h hh
  obtain ⟨hgd, hlinks⟩ := hg d hdh
  have hobj : h'.obj = h.obj := (congrArg Handle.obj hgd).symm
  have hrun : s.modPack h.obj g = .ok { s with packs := s.packs.insert h.obj (g d) } := by
    rw [VfsState.modPack, hd]
  have hmap : (T.put h h').map (fun x => (x.obj, x.node)) = T.map fun x => (x.obj, x.node) := by
    rw [Table.put, List.map_map]
    refine List.map_congr_left fun x _ => ?_
    rw [Function.comp_apply]
    split
    · rename_i hx
      rw [hobj, hnode, hx.1, hx.2]
    · rfl
  refine ⟨_, hrun, hs.entries, hs.rootNode, ?_, ?_, fun x hx => ?_, fun b hb => ?_, ?_⟩
  · exact Forest.holds_congr hs.holds fun _ _ => rfl
  · rw [hmap]
    refine hs.items.congr (fun b => ?_) rfl
    rw [lookup_insert_ite]
    split
    · rename_i hb
      rw [hb, hd]
      exact congrArg some hlinks
    · rfl
  · obtain ⟨y, hy, rfl⟩ := List.mem_map.1 hx
    by_cases hyh : y.obj = h.obj ∧ y.node = h.node
    · rw [if_pos hyh, hobj]
      exact ⟨g d, by rw [lookup_insert_ite, if_pos rfl], hgd⟩
    · have hne : y.obj ≠ h.obj := by
        intro heq
        obtain rfl := hs.eq_of_obj hh hy heq
        exact hyh ⟨rfl, rfl⟩
      rw [if_neg hyh]
      obtain ⟨c, hc, hcy⟩ := hs.packs y hy
      exact ⟨c, by rw [lookup_insert_ite, if_neg hne, hc], hcy⟩
  · have hold : b ∈ T.map Handle.obj := by
      by_cases hbh : b = h.obj
      · rw [hbh]
        exact List.mem_map_of_mem hh
      · refine hs.only b ?_
        rw [Finmap.mem_keys, ← Finmap.lookup_isSome] at hb ⊢
        rwa [lookup_insert_ite, if_neg hbh] at hb
    have hobjs : (T.put h h').map Handle.obj = T.map Handle.obj := by
      have hfst := congrArg (List.map Prod.fst) hmap
      rwa [List.map_map, List.map_map] at hfst
    rwa [hobjs]
  · rw [Table.find_put hnode, ← hs.root, Option.map_map]
    refine Option.map_congr fun x hx => ?_
    rw [Function.comp_apply]
    split
    · rename_i hxh
      obtain ⟨hxT, hxroot⟩ := Table.mem_of_find hx
      rw [hroot (hxh.2 ▸ hxroot), hs.eq_of_obj hh hxT hxh.1]
    · rfl

theorem put_head (hs : Shows m s (h :: T)) : Table.put (h :: T) h h' = h' :: T := by
  have hnd := hs.nodup
  rw [List.map_cons, List.nodup_cons] at hnd
  have hrest : T.map (fun x => if x.obj = h.obj ∧ x.node = h.node then h' else x) = T.map fun x => x := by
    refine List.map_congr_left fun x hx => if_neg fun hxh => hnd.1 ?_
    rw [← hxh.1]
    exact List.mem_map_of_mem hx
  rw [Table.put, List.map_cons, if_pos ⟨rfl, rfl⟩, hrest, List.map_id']

/-- A new object is the first handle. -/
theorem create {node : NodePtr} (hs : Shows m s T) (hnode : some node ≠ m.rootNode) (hres : 0 ≤ k.res)
    (hobj : k.obj ∉ T.map Handle.obj) : ∃ s', s.createFileItem (some node) k = .ok (0, some k.obj, s') ∧
      Shows m s' (⟨k.obj, some node, 0, 0, none, none⟩ :: T) := by
  have hlive : k.obj ∉ (T.map fun h => (h.obj, h.node)).map Prod.fst := by
    rw [List.map_map]
    exact hobj
  obtain ⟨s', hrun, hentries, hrootNode, -, hself, hother⟩ := VfsState.createFileItem_eq hs.items hres hlive
  obtain ⟨t, ht, hitems⟩ := VfsState.Items.create hs.items hres hlive
  rw [VfsState.itemStep, hrun] at ht
  obtain rfl : s' = t := Except.ok.inj ht
  refine ⟨s', hrun, hentries.trans hs.entries, hrootNode.trans hs.rootNode, ?_, hitems, fun h hh => ?_, fun b hb => ?_, ?_⟩
  · exact Forest.holds_congr hs.holds fun _ _ => by rw [hentries]
  · rcases List.mem_cons.1 hh with rfl | hh
    · exact ⟨_, hself, rfl⟩
    · obtain ⟨d, hd, hdh⟩ := hs.packs h hh
      rw [hother h.obj (ne_of_mem_of_not_mem (List.mem_map_of_mem hh) hobj), hd]
      split
      · exact ⟨_, rfl, hdh⟩
      · exact ⟨d, rfl, hdh⟩
  · by_cases hbk : b = k.obj
    · rw [hbk]
      exact List.mem_cons_self
    · refine List.mem_cons_of_mem _ (hs.only b ?_)
      rw [Finmap.mem_keys, ← Finmap.lookup_isSome] at hb ⊢
      rw [hother b hbk] at hb
      split at hb
      · simpa using hb
      · exact hb
  · rw [Table.find, List.find?_cons_of_neg (by simpa using hnode)]
    exact hs.root

/-- A deleted object is no handle any more. -/
theorem delete (hs : Shows m s T) (hh : h ∈ T) (hnode : h.node ≠ m.rootNode) :
    ∃ s', s.deleteUid h.obj = .ok s' ∧ Shows m s' (T.remove h) := by
  obtain ⟨newer, older, rfl⟩ := List.append_of_mem hh
  have hnd := hs.nodup
  rw [List.map_append, List.map_cons, List.nodup_middle, List.nodup_cons, ← List.map_append] at hnd
  have hkeep : ∀ x ∈ newer ++ older, x.obj ≠ h.obj := by
    intro x hx heq
    exact hnd.1 (heq ▸ List.mem_map_of_mem hx)
  have hitems := hs.items
  rw [List.map_append, List.map_cons] at hitems
  obtain ⟨s', hrun, hentries, hrootNode, -, hself, hother⟩ := VfsState.deleteUid_eq hitems
  obtain ⟨t, ht, hitems'⟩ := hitems.delete
  rw [VfsState.itemStep, hrun] at ht
  obtain rfl : s' = t := Except.ok.inj ht
  rw [Table.remove_append_cons hkeep]
  refine ⟨s', hrun, hentries.trans hs.entries, hrootNode.trans hs.rootNode, ?_, ?_, fun x hx => ?_, fun b hb => ?_, ?_⟩
  · exact Forest.holds_congr hs.holds fun _ _ => by rw [hentries]
  · rw [List.map_append]
    exact hitems'
  · obtain ⟨d, hd, hdx⟩ := hs.packs x (by simp at hx ⊢; tauto)
    exact ⟨_, (hother x.obj (hkeep x hx)).trans (congrArg _ hd), hdx⟩
  · rw [Finmap.mem_keys, ← Finmap.lookup_isSome] at hb
    by_cases hbh : b = h.obj
    · rw [hbh, hself] at hb
      cases hb
    · rw [hother b hbh, Option.isSome_map] at hb
      have hmem := hs.only b (by rwa [Finmap.mem_keys, ← Finmap.lookup_isSome])
      simp only [List.map_append, List.map_cons, List.mem_append, List.mem_cons] at hmem ⊢
      tauto
  · have hroot := hs.root
    rw [Table.find, List.find?_append, List.find?_cons_of_neg (by simpa using hnode)] at hroot
    rw [Table.find, List.find?_append]
    exact hroot

end Shows
end

/-! ### Calls with their replies -/

namespace VfsState

def withoutDirent (x : Except Fault (Int32 × VfsState)) : Except Fault (Reply × VfsState) :=
  x.map fun (res, s) => ((res, none), s)

def vfsReply (K : Callbacks) (M : ModuleCbs) (s : VfsState) : VfsCall → Except Fault (Reply × VfsState)
  | .open node prevNode path flags k => withoutDirent (s.vfsOpen K node prevNode path flags k)
  | .close node => withoutDirent (s.vfsClose node)
  | .read node => withoutDirent (s.vfsRead K node)
  | .write node => withoutDirent (s.vfsWrite K node)
  | .dopen node path k mods => withoutDirent (s.vfsDopen M node path k mods)
  | .dclose node => withoutDirent (s.vfsDclose node)
  | .dread node => (s.vfsDread K node).map fun (res, dirent, s) => ((res, dirent), s)

end VfsState

namespace Shows
variable {m : Mount} {s s' : VfsState} {T : Table} {h : Handle} {K : Callbacks} {M : ModuleCbs} {node : NodePtr} {k : UidAnswer}
  {path : CStr} {flags : UInt32} {prevNode : Option NodePtr} {mods : List ModuleInfo}

theorem dataCb (cb : Addr) (e : FileEntry) (hs : Shows m s T) (hK : K.Local) (hh : h ∈ T) : ∃ s', s.dataCb K cb e h.obj =
    .ok ((h.called K cb e).1, s') ∧ Shows m s' (T.put h (h.called K cb e).2) := by
  obtain ⟨d, hd, hdh⟩ := hs.packs h hh
  have hdata : K.data cb e.argsForStat d = K.data cb e.argsForStat h.pack := by rw [hK cb e.argsForStat d h.obj, hdh]
  obtain ⟨s', hrun, hs'⟩ : ∃ s', (s.modPack h.obj fun d => { d with
      seek := (K.data cb e.argsForStat h.pack).2.1, size := (K.data cb e.argsForStat h.pack).2.2 }) = .ok s' ∧
      Shows m s' (T.put h (h.called K cb e).2) :=
    hs.modPack hh (fun _ => rfl) rfl fun d hd => ⟨by rw [← hd]; rfl, rfl⟩
  refine ⟨s', ?_, hs'⟩
  unfold VfsState.dataCb
  rw [VfsState.pack, hd, ok_bind, hdata]
  dsimp only
  rw [hrun]
  rfl

theorem vfsTransfer {cb? : FileEntry → Option Addr} (hs : Shows m s T) (hK : K.Local) :
    Agrees (Shows m) (VfsState.withoutDirent (s.vfsTransfer K cb? node))
      (T.changed (m.transfer K (T.find (some node)) cb?)) := by
  unfold VfsState.vfsTransfer Mount.transfer
  rw [hs.found, ok_bind]
  cases hfind : T.find (some node) with
  | none => exact .ok _ hs
  | some h =>
    have hh := (Table.mem_of_find hfind).1
    obtain ⟨d, hd, hdh⟩ := hs.packs h hh
    have hentry : d.dirEntry = h.dirEntry := congrArg Handle.dirEntry hdh
    simp only [Option.map_some, VfsState.pack, hd, ok_bind, hentry]
    cases h.dirEntry with
    | none => exact .error _
    | some a =>
      simp only [VfsState.entry, hs.entries]
      cases m.entries.lookup a with
      | none => exact .error _
      | some e =>
        simp only [ok_bind]
        cases cb? e with
        | none => exact .ok _ hs
        | some cb =>
          obtain ⟨s', hrun, hs'⟩ := hs.dataCb cb e hK hh
          simp only [hrun]
          exact .ok _ hs'

theorem vfsClose (hs : Shows m s T) (hnode : some node ≠ m.rootNode) :
    Agrees (Shows m) (VfsState.withoutDirent (s.vfsClose node))
      (T.changed (.ok (Mount.close (T.find (some node))))) := by
  unfold VfsState.vfsClose Mount.close
  rw [hs.found, ok_bind]
  cases hfind : T.find (some node) with
  | none => exact .ok _ hs
  | some h =>
    obtain ⟨hh, hn⟩ := Table.mem_of_find hfind
    obtain ⟨s', hrun, hs'⟩ := hs.delete hh (hn ▸ hnode)
    simp only [Option.map_some, hrun, ok_bind]
    exact .ok _ hs'

theorem vfsDclose (hs : Shows m s T) : Agrees (Shows m) (VfsState.withoutDirent (s.vfsDclose node))
    (T.changed (.ok (if some node = m.rootNode then ((0, none), .keep) else Mount.close (T.find (some node))))) := by
  unfold VfsState.vfsDclose
  rw [hs.rootNode]
  by_cases hroot : some node = m.rootNode
  · rw [if_pos hroot, if_pos hroot]
    exact .ok _ hs
  · rw [if_neg hroot, if_neg hroot]
    exact hs.vfsClose hroot

theorem vfsDread (hs : Shows m s T) : Agrees (Shows m) ((s.vfsDread K node).map fun (res, dirent, s) => ((res, dirent), s))
    (T.changed (m.readDir K (T.find (some node)))) := by
  unfold VfsState.vfsDread Mount.readDir
  rw [hs.found, ok_bind]
  cases hfind : T.find (some node) with
  | none => exact .ok _ hs
  | some h =>
    have hh := (Table.mem_of_find hfind).1
    obtain ⟨d, hd, hdh⟩ := hs.packs h hh
    have hentry : d.dirEntry = h.dirEntry := congrArg Handle.dirEntry hdh
    simp only [Option.map_some, VfsState.pack, hd, ok_bind, hentry]
    cases h.dirEntry with
    | none => exact .ok _ hs
    | some a =>
      simp only [VfsState.entry, hs.entries]
      cases m.entries.lookup a with
      | none => exact .error _
      | some e =>
        simp only [ok_bind]
        cases VfsState.direntStat K e with
        | none => exact .ok _ hs
        | some stat =>
          obtain ⟨s', hrun, hs'⟩ : ∃ s', (s.modPack h.obj fun d => { d with dirEntry := e.next }) = .ok s' ∧
              Shows m s' (T.put h { h with dirEntry := e.next }) :=
            hs.modPack hh (fun _ => rfl) rfl fun d hd => ⟨by rw [← hd]; rfl, rfl⟩
          simp only [hrun]
          exact .ok _ hs'

/-- A new object is set up as a handle. -/
theorem setData (root entry : Option Addr) (size : Int) (hs : Shows m s T) (hnode : some node ≠ m.rootNode)
    (hobj : k.obj ∉ T.map Handle.obj) (hres : 0 ≤ k.res) : ∃ t s', s.createFileItem (some node) k = .ok (0, some k.obj, t) ∧
      t.entries = m.entries ∧ t.setData (some k.obj) root entry size = .ok (k.obj, s') ∧
      Shows m s' (⟨k.obj, some node, 0, size, root, entry⟩ :: T) := by
  obtain ⟨t, hcreate, ht⟩ := hs.create hnode hres hobj
  obtain ⟨s', hmod, hs'⟩ : ∃ s', (t.modPack k.obj fun d => { d with
      dirEntryRoot := root, dirEntry := entry, seek := 0, size := size }) = .ok s' ∧
      Shows m s' (Table.put (⟨k.obj, some node, 0, 0, none, none⟩ :: T) ⟨k.obj, some node, 0, 0, none, none⟩
        ⟨k.obj, some node, 0, size, root, entry⟩) :=
    ht.modPack List.mem_cons_self (fun h => absurd h hnode) rfl fun d hd => by
      have hn : d.node = some node := congrArg Handle.node hd
      exact ⟨by rw [← hn]; rfl, rfl⟩
  rw [ht.put_head] at hs'
  refine ⟨t, s', hcreate, ht.entries, ?_, hs'⟩
  rw [VfsState.setData, hmod]
  rfl

theorem vfsOpen (hs : Shows m s T) (hK : K.Local) (hnode : some node ≠ m.rootNode)
    (hobj : 0 ≤ k.res → k.obj ∉ T.map Handle.obj) :
    Agrees (Shows m) (VfsState.withoutDirent (s.vfsOpen K node prevNode path flags k))
      (T.changed (m.openFile K (T.find prevNode) node path flags k)) := by
  unfold VfsState.vfsOpen Mount.openFile Mount.entryAt
  rw [hs.found, ok_bind]
  cases hfind : T.find prevNode with
  | none => exact .ok _ hs
  | some h =>
    simp only [Option.map_some, Option.isNone_some, VfsState.getFileEntry, hs.lookupEntry, ok_bind]
    generalize m.tree.walk fileKind path m.tree.firstAddr = w
    obtain ⟨res, p⟩ := w
    dsimp only
    by_cases hneg : res < 0
    · rw [if_pos hneg]
      simp only [if_pos hneg]
      exact .ok _ hs
    · simp only [if_neg hneg]
      cases p with
      | none => exact .error _
      | some a =>
        simp only [VfsState.entry, hs.entries]
        cases m.entries.lookup a with
        | none => exact .error _
        | some e =>
          simp only [ok_bind]
          by_cases hflags : flags &&& ~~~ e.openAllowFlags ≠ 0
          · simp only [if_pos hflags]
            exact .ok _ hs
          · simp only [if_neg hflags]
            by_cases hres : 0 ≤ k.res
            · obtain ⟨t, u, hcreate, -, hset, hu⟩ := hs.setData none (some a) e.size hnode (hobj hres) hres
              simp only [hcreate, hset, ok_bind, if_neg (Int32.not_lt.2 hres)]
              cases e.openCb with
              | none => exact .ok _ hu
              | some cb =>
                obtain ⟨v, hrun, hv⟩ := hu.dataCb cb e hK List.mem_cons_self
                rw [hu.put_head] at hv
                simp only [hrun, ok_bind]
                exact .ok _ hv
            · have hneg' := Int32.not_le.1 hres
              simp only [VfsState.createFileItem, if_pos hneg']
              exact .error _

theorem vfsDopen (hs : Shows m s T) (hv : T.Allows m (.dopen node path k mods)) :
    Agrees (Shows m) (VfsState.withoutDirent (s.vfsDopen M node path k mods))
      (T.changed (m.openDir (T.find (some node)) node path k)) := by
  unfold VfsState.vfsDopen Mount.openDir Mount.entryAt
  by_cases hroot : some node = m.rootNode
  · rw [if_pos (hs.rootNode ▸ hroot), if_pos hroot, hs.found, ok_bind]
    cases hfind : T.find (some node) with
    | none => exact .ok _ hs
    | some h =>
      have hh := (Table.mem_of_find hfind).1
      obtain ⟨d, hd, hdh⟩ := hs.packs h hh
      have hdir : d.dirEntryRoot = h.dirEntryRoot := congrArg Handle.dirEntryRoot hdh
      simp only [Option.map_some, VfsState.pack, hd, ok_bind, hdir]
      cases hfirst : h.dirEntryRoot with
      | none => exact .ok _ hs
      | some a =>
        obtain ⟨s', hrun, hs'⟩ : ∃ s', (s.modPack h.obj fun d => { d with dirEntry := d.dirEntryRoot }) = .ok s' ∧
            Shows m s' (T.put h { h with dirEntry := h.dirEntryRoot }) :=
          hs.modPack hh (fun _ => rfl) rfl fun d hd => ⟨by rw [← hd]; rfl, rfl⟩
        rw [hfirst] at hs'
        simp only [hrun, Option.isNone_some]
        exact .ok _ hs'
  · rw [if_neg (hs.rootNode ▸ hroot), if_neg hroot]
    rw [hs.getDirEntry, ok_bind]
    generalize hw : m.tree.walk dirKind path m.tree.firstAddr = w
    obtain ⟨res, p⟩ := w
    dsimp only
    by_cases hneg : res < 0
    · rw [if_pos hneg]
      simp only [if_pos hneg]
      exact .ok _ hs
    · simp only [if_neg hneg]
      cases p with
      | none => exact .error _
      | some a =>
        obtain ⟨e, he⟩ := hs.entry_of_walk (congrArg Prod.snd hw)
        have hcb : e.dopenCb = none := by
          rw [Option.eq_none_iff_forall_ne_some]
          intro cb hcb
          refine (hv hroot).2 e ⟨a, congrArg Prod.snd hw, he, ?_⟩
          rw [hcb]
          rfl
        simp only [he, ok_bind]
        by_cases hres : 0 ≤ k.res
        · obtain ⟨t, u, hcreate, ht, hset, hu⟩ := hs.setData e.nextDir e.nextDir e.size hroot ((hv hroot).1 hres) hres
          simp only [hcreate, VfsState.entry, ht, he, ok_bind, hset, hcb, if_neg (Int32.not_lt.2 hres)]
          exact .ok _ hu
        · have hneg' := Int32.not_le.1 hres
          simp only [VfsState.createFileItem, if_pos hneg', pure_bind, VfsState.entry, hs.entries, he, ok_bind]
          exact .error _

theorem vfsReply {call : VfsCall} (hs : Shows m s T) (hK : K.Local) (hv : T.Allows m call) :
    Agrees (Shows m) (s.vfsReply K M call) (T.call K m call) := by
  cases call with
  | «open» node prevNode path flags k => exact hs.vfsOpen hK hv.1 hv.2
  | close node => exact hs.vfsClose hv
  | read node => exact hs.vfsTransfer hK
  | write node => exact hs.vfsTransfer hK
  | dopen node path k mods => exact hs.vfsDopen hv
  | dclose node => exact hs.vfsDclose
  | dread node => exact hs.vfsDread

/-- What the kernel promises of a call in a state, it promises for the handles. -/
theorem allows_iff {call : VfsCall} (hs : Shows m s T) : T.Allows m call ↔ call.Valid s ∧ call.Quiet s := by
  have hkeys : ∀ a, a ∉ T.map Handle.obj ↔ a ∉ s.packs.keys := by
    intro a
    refine not_congr ⟨fun ha => ?_, hs.only a⟩
    obtain ⟨h, hh, rfl⟩ := List.mem_map.1 ha
    obtain ⟨d, hd, -⟩ := hs.packs h hh
    exact Finmap.mem_keys.2 (Finmap.mem_iff.2 ⟨d, hd⟩)
  cases call with
  | «open» node prevNode path flags k =>
    unfold Table.Allows VfsCall.Valid VfsCall.Quiet
    dsimp only
    rw [hs.rootNode, hkeys, and_true]
  | close node =>
    unfold Table.Allows VfsCall.Valid VfsCall.Quiet
    rw [hs.rootNode, and_true]
  | dopen node path k mods =>
    have hrefreshes : ∀ e, s.Refreshes path e ↔ m.Refreshes path e := by
      intro e
      unfold VfsState.Refreshes Mount.Refreshes
      rw [hs.entries, hs.getDirEntry]
      constructor
      · rintro ⟨res, a, hwalk, he, hcb⟩
        exact ⟨a, congrArg Prod.snd (Except.ok.inj hwalk), he, hcb⟩
      · rintro ⟨a, hwalk, he, hcb⟩
        exact ⟨_, a, congrArg Except.ok (Prod.ext rfl hwalk), he, hcb⟩
    unfold Table.Allows VfsCall.Valid VfsCall.Quiet
    dsimp only
    rw [hs.rootNode, hkeys]
    constructor
    · intro h
      refine ⟨fun hroot => ⟨(h hroot).1, fun e he => ?_⟩, fun hroot e he => (h hroot).2 e ((hrefreshes e).1 he)⟩
      exact absurd ((hrefreshes e).1 he) ((h hroot).2 e)
    · rintro ⟨hvalid, hquiet⟩ hroot
      exact ⟨(hvalid hroot).1, fun e he => hquiet hroot e ((hrefreshes e).2 he)⟩
  | read | write | dclose | dread => exact ⟨fun _ => ⟨trivial, trivial⟩, fun _ => trivial⟩

end Shows

/-- What the driver keeps for a vnode. -/
def VfsState.handleOf (s : VfsState) (node : NodePtr) : Except Fault (Option Handle) := do
  match ← s.getFileEntryByNode (some node) with
  | none => return none
  | some a => return some ((← s.pack a).handle a)

theorem Shows.handleOf {m : Mount} {s : VfsState} {T : Table} {node : NodePtr} (hs : Shows m s T) :
    s.handleOf node = .ok (T.find (some node)) := by
  unfold VfsState.handleOf
  rw [hs.found, ok_bind]
  cases hfind : T.find (some node) with
  | none => rfl
  | some h =>
    obtain ⟨d, hd, hdh⟩ := hs.packs h (Table.mem_of_find hfind).1
    simp only [Option.map_some, VfsState.pack, hd, ok_bind, hdh]
    rfl

/-! ### Runs -/

/-- A call, what the callbacks do in it, and what its caller gets. -/
structure Event where
  callbacks : Callbacks
  call : VfsCall
  reply : Reply

/-- A call that returns, in which no directory with a `dopen_cb` is opened. -/
def VfsState.EventStep (M : ModuleCbs) (s : VfsState) (x : Event) (s' : VfsState) : Prop :=
  x.call.Valid s ∧ x.call.Quiet s ∧ x.callbacks.Local ∧ s.vfsReply x.callbacks M x.call = .ok (x.reply, s')

def Table.EventStep (m : Mount) (T : Table) (x : Event) (T' : Table) : Prop :=
  T.Allows m x.call ∧ x.callbacks.Local ∧ T.call x.callbacks m x.call = .ok (x.reply, T')

section
variable {M : ModuleCbs} {m : Mount} {s s' : VfsState} {T T' : Table} {x : Event} {f : Forest} {r : Addr} {d : DataPack}

theorem Shows.table_step (hs : Shows m s T) (hx : s.EventStep M x s') : ∃ T', T.EventStep m x T' ∧ Shows m s' T' := by
  obtain ⟨hvalid, hquiet, hK, hrun⟩ := hx
  have hv := hs.allows_iff.2 ⟨hvalid, hquiet⟩
  obtain ⟨T', hcall, hs'⟩ := (hs.vfsReply hK hv).right hrun
  exact ⟨T', ⟨hv, hK, hcall⟩, hs'⟩

theorem Shows.driver_step (hs : Shows m s T) (hx : T.EventStep m x T') : ∃ s', s.EventStep M x s' ∧ Shows m s' T' := by
  obtain ⟨hv, hK, hcall⟩ := hx
  obtain ⟨s', hrun, hs'⟩ := (@vfsReply m s T x.callbacks M x.call hs hK hv).left hcall
  obtain ⟨hvalid, hquiet⟩ := hs.allows_iff.1 hv
  exact ⟨s', ⟨hvalid, hquiet, hK, hrun⟩, hs'⟩

/-- What is mounted. -/
def VfsState.Mounted.mount (h : s.Mounted f r d) : Mount := ⟨s.entries, f, s.rootNode, h.tree⟩

theorem shows_mounted (h : s.Mounted f r d) : Shows h.mount s [d.handle r] := by
  obtain ⟨d', hd', hd'node⟩ := h.items.node _ List.mem_cons_self
  obtain rfl := Option.some.inj (h.pack.symm.trans hd')
  have hnode : d.node = s.rootNode := hd'node
  have hfirst : d.dirEntryRoot = f.firstAddr := Forest.firstAddr_eq h.holds
  refine ⟨rfl, rfl, hfirst ▸ h.holds, ?_, ?_, fun a ha => ?_, ?_⟩
  · have hitems := h.items
    rw [← hnode] at hitems
    exact hitems
  · intro x hx
    obtain rfl := List.mem_singleton.1 hx
    exact ⟨d, h.pack, rfl⟩
  · obtain ⟨d', hd'⟩ := Finmap.mem_iff.1 (Finmap.mem_keys.1 ha)
    exact List.mem_singleton.2 (h.only a d' hd')
  · simp [Table.find, VfsState.Mounted.mount, DataPack.handle, hnode, hfirst]

end

/-- The calls and replies that the mounted driver can have, in any number and order, are those of a plain list of handles. -/
theorem events_iff (M : ModuleCbs) (s : VfsState) (f : Forest) (r : Addr) (d : DataPack) (h : s.Mounted f r d)
    (events : List Event) : (∃ s', Run (VfsState.EventStep M) s events s') ↔
      ∃ T, Run (Table.EventStep h.mount) [d.handle r] events T := by
  constructor
  · rintro ⟨s', hrun⟩
    obtain ⟨T, hT, -⟩ := hrun.simulate (fun _ _ _ _ hs hx => hs.table_step hx) (shows_mounted h)
    exact ⟨T, hT⟩
  · rintro ⟨T, hrun⟩
    have hstep : ∀ T s x T', Shows h.mount s T → T.EventStep h.mount x T' →
        ∃ s', s.EventStep M x s' ∧ Shows h.mount s' T' := fun _ _ _ _ hs hx => hs.driver_step hx
    obtain ⟨s', hs', -⟩ := hrun.simulate (R := fun T s => Shows h.mount s T) hstep (shows_mounted h)
    exact ⟨s', hs'⟩

def fileEntry : FileEntry where
  openAllowFlags := 1
  name := nameF
  stat := some { stMode := Dmass.SCE_S_IFREG }
  size := 0x10
  readCb := some 0x99

def fileRoot : VfsState where
  packs := Finmap.singleton 1 { node := some 7, dirEntryRoot := some 0x10 }
  lastObj := some 1
  entries := Finmap.singleton 0x10 fileEntry
  rootNode := some 7

theorem fileRoot_mounted : fileRoot.Mounted (.cons ⟨0x10, nameF, fileEntry.stat⟩ .nil .nil) 1
    { node := some 7, dirEntryRoot := some 0x10 } where
  found := rfl
  pack := rfl
  holds := ⟨rfl, _, rfl, rfl, rfl, rfl, rfl⟩
  tree := ⟨⟨⟨by decide, by decide⟩, trivial, trivial⟩, ⟨List.not_mem_nil, trivial, trivial⟩, by decide, ⟨rfl, trivial, trivial⟩⟩
  items := ⟨⟨rfl, rfl, none, rfl, rfl⟩, by
    intro x hx
    obtain rfl := List.mem_singleton.1 hx
    exact ⟨_, rfl, rfl⟩⟩
  only := by
    intro b x hx
    have hmem : b ∈ fileRoot.packs := Finmap.mem_iff.2 ⟨x, hx⟩
    exact (Finmap.mem_singleton b 1 _).1 hmem
  unread := rfl

/-- A callback that reads four bytes. -/
def fourBytes : Callbacks := ⟨fun _ _ d => (4, d.seek + 4, d.size), fun _ _ => {}⟩

def openF (node : NodePtr) (obj : Addr) : Event := ⟨fourBytes, .open node (some 7) nameF 1 ⟨1, obj⟩, (0, none)⟩

def readF (node : NodePtr) : Event := ⟨fourBytes, .read node, (4, none)⟩

def twoReaders : List Event := [openF 8 0x100, openF 9 0x200, readF 8, readF 9, readF 8]

theorem twoReaders_run : ∃ s, Run (VfsState.EventStep noModuleCbs) fileRoot twoReaders s ∧
    s.handleOf 8 = .ok (some ⟨0x100, some 8, 8, 0x10, none, some 0x10⟩) := by
  have hK : fourBytes.Local := fun _ _ _ _ => rfl
  exact ⟨_, .cons ⟨⟨by decide, fun _ => by decide⟩, trivial, hK, rfl⟩
    (.cons ⟨⟨by decide, fun _ => by decide⟩, trivial, hK, rfl⟩ (.cons ⟨trivial, trivial, hK, rfl⟩
      (.cons ⟨trivial, trivial, hK, rfl⟩ (.cons ⟨trivial, trivial, hK, rfl⟩ (.nil _))))), rfl⟩

theorem events_iff_twoReaders :
    ∃ T, Run (Table.EventStep fileRoot_mounted.mount) [⟨1, some 7, 0, 0, some 0x10, none⟩] twoReaders T :=
  (events_iff noModuleCbs fileRoot _ 1 _ fileRoot_mounted twoReaders).1 (twoReaders_run.imp fun _ => And.left)

end VitaUtility.VfsMountOld
