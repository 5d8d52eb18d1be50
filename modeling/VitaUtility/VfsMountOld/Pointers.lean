import VitaUtility.VfsMountOld.Rebuild

/-!
# The pointers into the tree (`main.c`)

The `dir_entry` of a `DataPack_t` is a raw pointer to an entry. The calls other than an opening of a directory leave the tree as
it is and only set a `dir_entry` to one of its entries.
-/

namespace VitaUtility.VfsMountOld
open Dmass (Addr NodePtr Fault SceIoDirent lookup_insert_ite)

namespace VfsState

/-- The `dir_entry` of a live `DataPack_t` is null or a live entry. -/
def EntriesLive (s : VfsState) : Prop :=
  ∀ b d a, s.packs.lookup b = some d → d.dirEntry = some a → ∃ e, s.entries.lookup a = some e

/-- The `dir_entry` of each `DataPack_t` is null or in the tree. -/
structure Safe (s : VfsState) (live : List (Addr × Option NodePtr)) (f : Forest) (r : Addr) : Prop where
  items : s.Items live
  root : (live.find? fun x => x.2 = s.rootNode).map Prod.fst = some r
  holds : ∀ d, s.packs.lookup r = some d → s.Holds d.dirEntryRoot f
  addrs : f.addrs.Nodup
  stats : f.All fun x => x.stat.isSome
  dirEntries : ∀ b d a, s.packs.lookup b = some d → d.dirEntry = some a → a ∈ f.addrs

variable {s s' t : VfsState} {live : List (Addr × Option NodePtr)} {f : Forest} {r a : Addr} {d : DataPack} {e : FileEntry}
  {K : Callbacks} {node : NodePtr} {k : UidAnswer} {path : CStr} {p : Option Addr} {res : Int32} {kind : LookupKind}

namespace Safe

theorem mem_root (h : s.Safe live f r) : (r, s.rootNode) ∈ live := by
  obtain ⟨x, hx, rfl⟩ := Option.map_eq_some_iff.1 h.root
  have hnode : x.2 = s.rootNode := by simpa using List.find?_some hx
  rw [← hnode]
  exact List.mem_of_find?_eq_some hx

theorem lookup_root (h : s.Safe live f r) : ∃ d, s.packs.lookup r = some d ∧ s.Holds d.dirEntryRoot f := by
  obtain ⟨d, hd⟩ := h.items.lookup (List.mem_map_of_mem h.mem_root)
  exact ⟨d, hd, h.holds d hd⟩

theorem toRoot (h : s.Safe live f r) : ∃ d, s.Root f r d := by
  obtain ⟨d, hd, hholds⟩ := h.lookup_root
  exact ⟨d, by rw [h.items.getFileEntryByNode, h.root], hd, hholds⟩

theorem lookup_entry (h : s.Safe live f r) (ha : a ∈ f.addrs) : ∃ e, s.entries.lookup a = some e := by
  obtain ⟨d, -, hholds⟩ := h.lookup_root
  obtain ⟨e, -, he, -⟩ := Forest.exists_replaced hholds ha
  exact ⟨e, he⟩

theorem entriesLive (h : s.Safe live f r) : s.EntriesLive :=
  fun b d a hb ha => h.lookup_entry (h.dirEntries b d a hb ha)

theorem found (h : s.Safe live f r) (hfound : s.getFileEntryByNode (some node) = .ok (some a)) :
    (a, some node) ∈ live ∧ ∃ d, s.packs.lookup a = some d := by
  rw [h.items.getFileEntryByNode] at hfound
  obtain ⟨x, hx, rfl⟩ := Option.map_eq_some_iff.1 (Except.ok.inj hfound)
  have hnode : x.2 = some node := by simpa using List.find?_some hx
  have hmem := List.mem_of_find?_eq_some hx
  refine ⟨?_, h.items.lookup (List.mem_map_of_mem hmem)⟩
  rw [← hnode]
  exact hmem

theorem ne_root (h : s.Safe live f r) (ha : (a, some node) ∈ live) (hnode : some node ≠ s.rootNode) : a ≠ r := by
  rintro rfl
  obtain ⟨d, hd, hdnode⟩ := h.items.node _ ha
  obtain ⟨d', hd', hdnode'⟩ := h.items.node _ h.mem_root
  obtain rfl := Option.some.inj (hd.symm.trans hd')
  exact hnode (hdnode.symm.trans hdnode')

/-- A write through a `DataPack_t *` that leaves the links of the objects, the tree and the vnode. -/
theorem modPack {g : DataPack → DataPack} (h : s.Safe live f r) (hrun : s.modPack a g = .ok s')
    (hlinks : ∀ d, ((g d).node, (g d).next, (g d).prev) = (d.node, d.next, d.prev))
    (hroot : a = r → ∀ d, (g d).dirEntryRoot = d.dirEntryRoot)
    (hentry : ∀ d c, s.packs.lookup a = some d → (g d).dirEntry = some c → c ∈ f.addrs) : s'.Safe live f r := by
  obtain ⟨d, hd, rfl⟩ := modPack_ok hrun
  refine ⟨h.items.congr (fun b => ?_) rfl, h.root, fun x hx => ?_, h.addrs, h.stats, fun b x c hb hc => ?_⟩
  · rw [lookup_insert_ite]
    split
    · rename_i hb
      rw [hb, hd]
      exact congrArg some (hlinks d)
    · rfl
  · rw [lookup_insert_ite] at hx
    split at hx
    · rename_i hra
      obtain rfl := Option.some.inj hx
      rw [hroot hra.symm d]
      exact Forest.holds_congr (h.holds d (hra ▸ hd)) fun _ _ => rfl
    · exact Forest.holds_congr (h.holds x hx) fun _ _ => rfl
  · rw [lookup_insert_ite] at hb
    split at hb
    · obtain rfl := Option.some.inj hb
      exact hentry d c hd hc
    · exact h.dirEntries b x c hb hc

/-- A callback changes `seek` and `size` only. -/
theorem dataCb {cb : Addr} (h : s.Safe live f r) (hrun : s.dataCb K cb e a = .ok (res, s')) : s'.Safe live f r := by
  unfold VfsState.dataCb at hrun
  obtain ⟨d, hd, hrun⟩ := bind_eq_ok.1 hrun
  obtain ⟨t, ht, hrun⟩ := bind_eq_ok.1 hrun
  cases hrun
  exact h.modPack ht (fun _ => rfl) (fun _ _ => rfl) fun d c hd hc => h.dirEntries a d c hd hc

/-- A new object, which is not the root. -/
theorem create (h : s.Safe live f r) (hnode : some node ≠ s.rootNode) (hres : 0 ≤ k.res) (hobj : k.obj ∉ s.packs.keys) :
    ∃ s', s.createFileItem (some node) k = .ok (0, some k.obj, s') ∧ s'.Safe ((k.obj, some node) :: live) f r ∧
      k.obj ≠ r ∧ s'.entries = s.entries ∧ ∀ b d, b ≠ k.obj → s'.packs.lookup b = some d →
        ∃ d', s.packs.lookup b = some d' ∧ d'.dirEntry = d.dirEntry := by
  have hlive : k.obj ∉ live.map Prod.fst := by
    intro hmem
    obtain ⟨d, hd⟩ := h.items.lookup hmem
    exact hobj (Finmap.mem_keys.2 (Finmap.mem_iff.2 ⟨d, hd⟩))
  obtain ⟨s', hrun, hentries, hrootNode, -, hself, hother⟩ := @createFileItem_eq s live (some node) k h.items hres hlive
  obtain ⟨t, ht, hitems⟩ := @Items.create s live (some node) k h.items hres hlive
  rw [itemStep, hrun] at ht
  obtain rfl : s' = t := Except.ok.inj ht
  have hold : ∀ b d, b ≠ k.obj → s'.packs.lookup b = some d →
      ∃ d', s.packs.lookup b = some d' ∧ d'.dirEntryRoot = d.dirEntryRoot ∧ d'.dirEntry = d.dirEntry := by
    intro b d hb hd
    rw [hother b hb] at hd
    split at hd
    · obtain ⟨d', hd', rfl⟩ := Option.map_eq_some_iff.1 hd
      exact ⟨d', hd', rfl, rfl⟩
    · exact ⟨d, hd, rfl, rfl⟩
  have hr : r ≠ k.obj := ne_of_mem_of_not_mem (List.mem_map_of_mem h.mem_root) hlive
  refine ⟨s', hrun, ⟨hitems, ?_, fun d hd => ?_, h.addrs, h.stats, fun b d c hb hc => ?_⟩, hr.symm, hentries,
    fun b d hb hd => ?_⟩
  · rw [hrootNode, List.find?_cons_of_neg (by simpa using hnode)]
    exact h.root
  · obtain ⟨d', hd', hroot, -⟩ := hold r d hr hd
    rw [← hroot]
    exact Forest.holds_congr (h.holds d' hd') fun _ _ => by rw [hentries]
  · by_cases hbk : b = k.obj
    · rw [hbk, hself] at hb
      cases hb
      cases hc
    · obtain ⟨d', hd', -, hentry⟩ := hold b d hbk hb
      exact h.dirEntries b d' c hd' (hentry.trans hc)
  · obtain ⟨d', hd', -, hentry⟩ := hold b d hb hd
    exact ⟨d', hd', hentry⟩

theorem create_entries (h : s.Safe live f r) (hnode : some node ≠ s.rootNode) (hobj : 0 ≤ k.res → k.obj ∉ s.packs.keys)
    (hrun : s.createFileItem (some node) k = .ok (res, p, t)) : t.entries = s.entries := by
  by_cases hres : 0 ≤ k.res
  · obtain ⟨u, hu, -, -, hentries, -⟩ := h.create hnode hres (hobj hres)
    rw [hu] at hrun
    cases hrun
    exact hentries
  · rw [createFileItem, if_pos (Int32.not_le.1 hres)] at hrun
    cases hrun
    rfl

/-- An object other than the root is deleted. -/
theorem delete (h : s.Safe live f r) (hnode : some node ≠ s.rootNode)
    (hfound : s.getFileEntryByNode (some node) = .ok (some a)) (hrun : s.deleteUid a = .ok s') :
    ∃ live', s'.Safe live' f r := by
  have hmem := (h.found hfound).1
  obtain ⟨newer, older, rfl⟩ := List.append_of_mem hmem
  have hne := h.ne_root hmem hnode
  obtain ⟨t, ht, hentries, hrootNode, -, hself, hother⟩ := deleteUid_eq h.items
  obtain ⟨u, hu, hitems⟩ := h.items.delete
  obtain rfl := Except.ok.inj (hrun.symm.trans ht)
  obtain rfl := Except.ok.inj (hrun.symm.trans hu)
  refine ⟨newer ++ older, hitems, ?_, fun d hd => ?_, h.addrs, h.stats, fun b d c hb hc => ?_⟩
  · have hroot := h.root
    rw [List.find?_append, List.find?_cons_of_neg (by simpa using hnode)] at hroot
    rw [hrootNode, List.find?_append]
    exact hroot
  · rw [hother r hne.symm] at hd
    obtain ⟨d', hd', rfl⟩ := Option.map_eq_some_iff.1 hd
    exact Forest.holds_congr (h.holds d' hd') fun _ _ => by rw [hentries]
  · by_cases hba : b = a
    · rw [hba, hself] at hb
      cases hb
    · rw [hother b hba] at hb
      obtain ⟨d', hd', rfl⟩ := Option.map_eq_some_iff.1 hb
      exact h.dirEntries b d' c hd' hc

theorem lookupEntry_mem (h : s.Safe live f r) (hrun : s.lookupEntry kind path = .ok (res, some a)) : a ∈ f.addrs := by
  obtain ⟨d, hroot⟩ := h.toRoot
  rw [lookupEntry_eq hroot h.stats h.addrs] at hrun
  rcases Forest.walk_mem (congrArg Prod.snd (Except.ok.inj hrun)) with hfirst | hmem
  · have hholds := hroot.holds
    rw [Forest.firstAddr_eq hholds, hfirst] at hholds
    exact Forest.first_mem hholds
  · exact hmem

/-- A new object at one of the entries of the tree. -/
theorem open_entry {root entry : Option Addr} {size : Int} (h : s.Safe live f r) (hnode : some node ≠ s.rootNode)
    (hobj : 0 ≤ k.res → k.obj ∉ s.packs.keys) (hentry : ∀ c, entry = some c → c ∈ f.addrs)
    (hrun : s.createFileItem (some node) k = .ok (res, p, t)) (hset : t.setData p root entry size = .ok (a, s')) :
    s'.Safe ((a, some node) :: live) f r ∧ s'.entries = s.entries ∧ a ≠ r ∧
      (∃ d, s'.packs.lookup a = some d ∧ d.dirEntryRoot = root) ∧
      ∀ b d, b ≠ a → s'.packs.lookup b = some d → ∃ d', s.packs.lookup b = some d' ∧ d'.dirEntry = d.dirEntry := by
  by_cases hres : 0 ≤ k.res
  · obtain ⟨u, hu, hsafe, hne, hentries, hold⟩ := h.create hnode hres (hobj hres)
    rw [hu] at hrun
    cases hrun
    unfold setData at hset
    obtain ⟨v, hv, hset⟩ := bind_eq_ok.1 hset
    cases hset
    refine ⟨hsafe.modPack hv (fun _ => rfl) (fun heq => absurd heq hne) fun _ c _ hc => hentry c hc, ?_⟩
    obtain ⟨d, hd, rfl⟩ := modPack_ok hv
    refine ⟨hentries, hne, ⟨_, by rw [lookup_insert_ite, if_pos rfl], rfl⟩, fun b x hb hx => hold b x hb ?_⟩
    rwa [lookup_insert_ite, if_neg hb] at hx
  · rw [createFileItem, if_pos (Int32.not_le.1 hres)] at hrun
    cases hrun
    cases hset

/-! ### The calls -/

theorem vfsOpen {prevNode : Option NodePtr} {flags : UInt32} (h : s.Safe live f r)
    (hnode : some node ≠ s.rootNode) (hobj : 0 ≤ k.res → k.obj ∉ s.packs.keys)
    (hrun : s.vfsOpen K node prevNode path flags k = .ok (res, s')) :
    ∃ live', s'.Safe live' f r := by
  unfold VfsState.vfsOpen at hrun
  obtain ⟨found, -, hrun⟩ := bind_eq_ok.1 hrun
  cases found with
  | none =>
    cases hrun
    exact ⟨live, h⟩
  | some _ =>
    obtain ⟨⟨res', pDirEntry⟩, hlookup, hrun⟩ := bind_eq_ok.1 hrun
    dsimp only at hrun
    split at hrun
    · cases hrun
      exact ⟨live, h⟩
    cases pDirEntry with
    | none => cases hrun
    | some c =>
      have hc := h.lookupEntry_mem hlookup
      obtain ⟨e, he, hrun⟩ := bind_eq_ok.1 hrun
      split at hrun
      · cases hrun
        exact ⟨live, h⟩
      obtain ⟨⟨_, p, t⟩, hcreate, hrun⟩ := bind_eq_ok.1 hrun
      obtain ⟨⟨a, u⟩, hset, hrun⟩ := bind_eq_ok.1 hrun
      have hentry : ∀ c', some c = some c' → c' ∈ f.addrs := by
        rintro _ ⟨rfl⟩
        exact hc
      have hsafe := (h.open_entry hnode hobj hentry hcreate hset).1
      cases hcb : e.openCb with
      | none =>
        simp only [hcb] at hrun
        cases hrun
        exact ⟨_, hsafe⟩
      | some cb =>
        simp only [hcb] at hrun
        obtain ⟨⟨res', v⟩, hdata, hrun⟩ := bind_eq_ok.1 hrun
        cases hrun
        exact ⟨_, hsafe.dataCb hdata⟩

theorem vfsClose (h : s.Safe live f r) (hnode : some node ≠ s.rootNode) (hrun : s.vfsClose node = .ok (res, s')) :
    ∃ live', s'.Safe live' f r := by
  unfold VfsState.vfsClose at hrun
  obtain ⟨found, hfound, hrun⟩ := bind_eq_ok.1 hrun
  cases found with
  | none =>
    cases hrun
    exact ⟨live, h⟩
  | some a =>
    obtain ⟨t, ht, hrun⟩ := bind_eq_ok.1 hrun
    cases hrun
    exact h.delete hnode hfound ht

theorem vfsDclose (h : s.Safe live f r) (hrun : s.vfsDclose node = .ok (res, s')) : ∃ live', s'.Safe live' f r := by
  unfold VfsState.vfsDclose at hrun
  split at hrun
  · cases hrun
    exact ⟨live, h⟩
  · exact h.vfsClose ‹_› hrun

theorem vfsTransfer {cb? : FileEntry → Option Addr} (h : s.Safe live f r)
    (hrun : s.vfsTransfer K cb? node = .ok (res, s')) : s'.Safe live f r := by
  unfold VfsState.vfsTransfer at hrun
  obtain ⟨found, -, hrun⟩ := bind_eq_ok.1 hrun
  cases found with
  | none =>
    cases hrun
    exact h
  | some a =>
    obtain ⟨d, -, hrun⟩ := bind_eq_ok.1 hrun
    cases hentry : d.dirEntry with
    | none =>
      rw [hentry] at hrun
      cases hrun
    | some c =>
      rw [hentry] at hrun
      obtain ⟨e, -, hrun⟩ := bind_eq_ok.1 hrun
      cases hcb : cb? e with
      | none =>
        rw [hcb] at hrun
        cases hrun
        exact h
      | some cb =>
        rw [hcb] at hrun
        exact h.dataCb hrun

theorem vfsDread {dirent : Option SceIoDirent} (h : s.Safe live f r)
    (hrun : s.vfsDread K node = .ok (res, dirent, s')) : s'.Safe live f r := by
  unfold VfsState.vfsDread at hrun
  obtain ⟨found, -, hrun⟩ := bind_eq_ok.1 hrun
  cases found with
  | none =>
    cases hrun
    exact h
  | some a =>
    obtain ⟨d, hd, hrun⟩ := bind_eq_ok.1 hrun
    cases hentry : d.dirEntry with
    | none =>
      rw [hentry] at hrun
      cases hrun
      exact h
    | some c =>
      rw [hentry] at hrun
      obtain ⟨e, he, hrun⟩ := bind_eq_ok.1 hrun
      cases hstat : direntStat K e with
      | none =>
        simp only [hstat] at hrun
        cases hrun
        exact h
      | some stat =>
        simp only [hstat] at hrun
        obtain ⟨t, ht, hrun⟩ := bind_eq_ok.1 hrun
        cases hrun
        obtain ⟨dr, hdr, hholds⟩ := h.lookup_root
        refine h.modPack ht (fun _ => rfl) (fun _ _ => rfl) fun x y hx hy => ?_
        exact Forest.link_mem hholds (h.dirEntries a d c (pack_ok hd) hentry) (entry_ok he) (.inl hy)

/-! ### No call through a freed entry -/

theorem dataCb_ne {cb : Addr} (hd : s.packs.lookup a = some d) : s.dataCb K cb e a ≠ .error .freed := by
  unfold VfsState.dataCb VfsState.modPack
  rw [pack, hd, ok_bind]
  intro h
  cases h

theorem vfsTransfer_ne {cb? : FileEntry → Option Addr} (h : s.Safe live f r) : s.vfsTransfer K cb? node ≠ .error .freed := by
  unfold VfsState.vfsTransfer
  obtain ⟨found, hfound⟩ : ∃ found, s.getFileEntryByNode (some node) = .ok found := ⟨_, h.items.getFileEntryByNode⟩
  rw [hfound, ok_bind]
  cases found with
  | none =>
    intro h
    cases h
  | some a =>
    obtain ⟨-, d, hd⟩ := h.found hfound
    simp only [pack, hd, ok_bind]
    cases hentry : d.dirEntry with
    | none =>
      intro h
      cases h
    | some c =>
      obtain ⟨e, he⟩ := h.lookup_entry (h.dirEntries a d c hd hentry)
      simp only [entry, he, ok_bind]
      cases cb? e with
      | none =>
        intro h
        cases h
      | some cb => exact dataCb_ne hd

theorem vfsDread_ne (h : s.Safe live f r) : s.vfsDread K node ≠ .error .freed := by
  unfold VfsState.vfsDread
  obtain ⟨found, hfound⟩ : ∃ found, s.getFileEntryByNode (some node) = .ok found := ⟨_, h.items.getFileEntryByNode⟩
  rw [hfound, ok_bind]
  cases found with
  | none =>
    intro h
    cases h
  | some a =>
    obtain ⟨-, d, hd⟩ := h.found hfound
    simp only [pack, hd, ok_bind]
    cases hentry : d.dirEntry with
    | none =>
      intro h
      cases h
    | some c =>
      obtain ⟨e, he⟩ := h.lookup_entry (h.dirEntries a d c hd hentry)
      simp only [entry, he, ok_bind]
      cases direntStat K e with
      | none =>
        intro h
        cases h
      | some stat =>
        simp only [VfsState.modPack, hd, ok_bind]
        intro h
        cases h

end Safe

end VfsState

end VitaUtility.VfsMountOld
