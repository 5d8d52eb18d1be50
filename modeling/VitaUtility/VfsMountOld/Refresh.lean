import VitaUtility.Lib.Run
import VitaUtility.VfsMountOld.Pointers

/-!
# Opening the directory of the modules again (`main.c`)

Opening a directory with a `dopen_cb` frees the entries in it, and the tree and the pointers stay together if none of those is
to an entry in the directory.
-/

namespace VitaUtility.VfsMountOld
open Dmass (Addr NodePtr lookup_insert_ite)

namespace VfsState

/-- The entry at `a` is one that the links from an entry on lead to. -/
inductive Reaches (s : VfsState) (a : Addr) : Option Addr → Prop
  | here : Reaches s a (some a)
  | next {b : Addr} {e : FileEntry} : s.entries.lookup b = some e → Reaches s a e.next → Reaches s a (some b)
  | inside {b : Addr} {e : FileEntry} : s.entries.lookup b = some e → Reaches s a e.nextDir → Reaches s a (some b)

/-- Opening the path frees and makes again what is in the entry `e`. -/
def Refreshes (s : VfsState) (path : CStr) (e : FileEntry) : Prop :=
  ∃ res a, s.getDirEntry path = .ok (res, some a) ∧ s.entries.lookup a = some e ∧ e.dopenCb.isSome

end VfsState

namespace VfsCall

/-- The vnode of a file is not that of the root, a new object is in no block that another has, and a new entry in no block in
use. -/
def Valid (s : VfsState) : VfsCall → Prop
  | .open node _ _ _ k => some node ≠ s.rootNode ∧ (0 ≤ k.res → k.obj ∉ s.packs.keys)
  | .close node => some node ≠ s.rootNode
  | .dopen node path k mods => some node ≠ s.rootNode →
    (0 ≤ k.res → k.obj ∉ s.packs.keys) ∧ ∀ e, s.Refreshes path e → FreshBlocks s.entries e.nextDir mods
  | _ => True

/-- The directory is opened only while no `dir_entry` is one of the entries in it. -/
def Meets (s : VfsState) : VfsCall → Prop
  | .dopen node path _ _ => some node ≠ s.rootNode → ∀ e, s.Refreshes path e →
    ∀ b d a, s.packs.lookup b = some d → d.dirEntry = some a → ¬ s.Reaches a e.nextDir
  | _ => True

end VfsCall

namespace VfsState

/-- A call that returns. -/
def CallStep (M : ModuleCbs) (s : VfsState) (call : VfsCall) (s' : VfsState) : Prop :=
  call.Valid s ∧ ∃ K, s.vfsCall K M call = .ok s'

/-- As it is mounted: the root is the only object, with a tree of entries, and is not being listed. -/
structure Mounted (s : VfsState) (f : Forest) (r : Addr) (d : DataPack) : Prop extends s.Root f r d where
  tree : f.IsTree
  items : s.Items [(r, s.rootNode)]
  only : ∀ b x, s.packs.lookup b = some x → b = r
  unread : d.dirEntry = none

end VfsState

theorem VfsState.Reaches.congr {s s' : VfsState} {a : Addr} {p : Option Addr} (h : s'.Reaches a p)
    (hentries : s'.entries = s.entries) : s.Reaches a p := by
  induction h with
  | here => exact .here
  | next he _ ih => exact .next (hentries ▸ he) ih
  | inside he _ ih => exact .inside (hentries ▸ he) ih

theorem Forest.reaches {s : VfsState} {f : Forest} {p : Option Addr} {a : Addr} (h : s.Holds p f) (ha : a ∈ f.addrs) :
    s.Reaches a p := by
  induction f generalizing p with
  | nil => cases ha
  | cons x sub next ihs ihn =>
    obtain ⟨rfl, e, he, -, -, hsub, hnext⟩ := h
    rw [addrs, List.mem_cons, List.mem_append] at ha
    rcases ha with rfl | ha | ha
    · exact .here
    · exact .inside he (ihs hsub ha)
    · exact .next he (ihn hnext ha)

namespace VfsState
variable {s s' t : VfsState} {live : List (Addr × Option NodePtr)} {f sub : Forest} {r a : Addr} {d : DataPack} {e : FileEntry}
  {K : Callbacks} {M : ModuleCbs} {node : NodePtr} {k : UidAnswer} {path : CStr} {mods : List ModuleInfo} {res : Int32}

theorem Mounted.safe (h : s.Mounted f r d) : s.Safe [(r, s.rootNode)] f r := by
  refine ⟨h.items, by simp, fun x hx => ?_, h.tree.addrs, h.tree.stats, fun b x a hb ha => ?_⟩
  · obtain rfl := Option.some.inj (hx.symm.trans h.pack)
    exact h.holds
  · obtain rfl := h.only b x hb
    obtain rfl := Option.some.inj (hb.symm.trans h.pack)
    rw [h.unread] at ha
    cases ha

/-! ### Opening the directory -/

/-- `t` is `s` with the entries `g` in the one at `c`, where those of `sub` were, and the object at `a` at the first of them. -/
structure Refreshed (s t : VfsState) (a c : Addr) (sub g : Forest) : Prop where
  packs : ∀ b, t.packs.lookup b = (s.packs.lookup b).map fun d =>
    if b = a then { d with dirEntryRoot := g.firstAddr, dirEntry := g.firstAddr } else d
  entries : ∀ b ∈ s.entries.keys, b ∉ sub.addrs →
    t.entries.lookup b = (s.entries.lookup b).map fun e => if b = c then { e with nextDir := g.firstAddr } else e
  holds : t.Holds g.firstAddr g
  nodup : g.addrs.Nodup
  stats : g.All fun x => x.stat.isSome
  fresh : ∀ b ∈ g.addrs, b ∈ s.entries.keys → b ∈ sub.addrs
  lastObj : t.lastObj = s.lastObj
  rootNode : t.rootNode = s.rootNode

/-- What `vfs_dopen` does with the `dopen_cb`. -/
theorem refreshed_of_ok {c : Addr} {t u v : VfsState} {d' : DataPack} (hd : s.packs.lookup a = some d)
    (he : s.entries.lookup c = some e) (hroot : d.dirEntryRoot = e.nextDir) (hsub : s.Holds e.nextDir sub)
    (hnd : sub.addrs.Nodup) (hc : c ∉ sub.addrs) (hfresh : FreshBlocks s.entries e.nextDir mods)
    (ht : s.dopenCbModule M a mods = .ok t) (hd' : t.pack a = .ok d')
    (hu : t.modEntry c (fun e => { e with nextDir := d'.dirEntryRoot }) = .ok u)
    (hv : u.modPack a (fun x => { x with dirEntry := d'.dirEntryRoot }) = .ok v) : ∃ g, s.Refreshed v a c sub g := by
  obtain ⟨m, g, hm, hrows⟩ := dopenCbModule_ok hd (hroot ▸ hsub) hnd (hroot ▸ hfresh) ht
  -- an entry that is not in the directory is in no new block
  have hold : ∀ b ∈ s.entries.keys, b ∉ sub.addrs → b ∉ g.addrs ∧ t.entries.lookup b = s.entries.lookup b := by
    intro b hb hbs
    have hbg : b ∉ g.addrs := by
      intro hbg
      refine hrows.fresh b hbg ?_
      rw [Finmap.mem_keys, ← Finmap.lookup_isSome, hm b hbs, Finmap.lookup_isSome, ← Finmap.mem_keys]
      exact hb
    exact ⟨hbg, (hrows.old b hbg).trans (hm b hbs)⟩
  have hck : c ∈ s.entries.keys := Finmap.mem_keys.2 (Finmap.mem_iff.2 ⟨e, he⟩)
  obtain ⟨hcg, hct⟩ := hold c hck hc
  have hta : t.packs.lookup a = some { d with dirEntryRoot := g.firstAddr } := by
    rw [hrows.pack, lookup_insert_ite, if_pos rfl, Option.map_some, if_pos rfl]
  rw [pack, hta] at hd'
  obtain rfl := Except.ok.inj hd'
  rw [modEntry, hct, he] at hu
  obtain rfl := Except.ok.inj hu
  rw [modPack, hta] at hv
  obtain rfl := Except.ok.inj hv
  refine ⟨g, fun b => ?_, fun b hb hbs => ?_, ?_, hrows.nodup, hrows.stats, fun b hb hbs => ?_, hrows.lastObj, hrows.rootNode⟩
  · rw [lookup_insert_ite]
    by_cases hba : b = a
    · rw [if_pos hba, hba, hd, Option.map_some, if_pos rfl]
    · rw [if_neg hba, hrows.pack, lookup_insert_ite, if_neg hba]
      exact Option.map_congr fun x _ => by rw [if_neg hba, if_neg hba]
  · rw [lookup_insert_ite]
    by_cases hbc : b = c
    · rw [if_pos hbc, hbc, he, Option.map_some, if_pos rfl]
    · rw [if_neg hbc, (hold b hb hbs).2]
      exact (Forest.map_self fun _ => if_neg hbc).symm
  · refine Forest.holds_congr hrows.holds fun b hb => ?_
    rw [lookup_insert_ite, if_neg (ne_of_mem_of_not_mem hb hcg)]
  · by_contra hsub
    exact (hold b hbs hsub).1 hb

/-- The tree with the new entries, to which no `dir_entry` leads that is not in it. -/
theorem Safe.refreshed {c : Addr} {g f' : Forest} (h : s.Safe live f r) (ht : s.Refreshed t a c sub g) (har : a ≠ r)
    (hf' : Forest.Replaced c sub g f f')
    (hfree : ∀ b d y, b ≠ a → s.packs.lookup b = some d → d.dirEntry = some y → y ∉ sub.addrs) : t.Safe live f' r := by
  obtain ⟨rest, hc, hperm, hperm'⟩ := hf'.addrs
  obtain ⟨-, hnd, hdis⟩ := List.nodup_append'.1 (hperm.nodup_iff.1 h.addrs)
  obtain ⟨dr, hdr, hholds⟩ := h.lookup_root
  have hkeys : ∀ b ∈ f.addrs, b ∈ s.entries.keys := Forest.mem_keys hholds
  have hrest : ∀ b ∈ rest, b ∉ g.addrs := by
    intro b hb hbg
    exact hdis (ht.fresh b hbg (hkeys b (hperm.mem_iff.2 (List.mem_append_right _ hb)))) hb
  refine ⟨h.items.congr (fun b => ?_) ht.lastObj, by rw [ht.rootNode, h.root], fun d hd => ?_,
    hperm'.nodup_iff.2 (List.nodup_append'.2 ⟨ht.nodup, hnd, fun b hb hb' => hrest b hb' hb⟩), hf'.all h.stats ht.stats,
    fun b d y hb hy => ?_⟩
  · rw [ht.packs, Option.map_map]
    refine Option.map_congr fun d _ => ?_
    rw [Function.comp_apply]
    split <;> rfl
  · rw [ht.packs] at hd
    obtain ⟨d', hd', rfl⟩ := Option.map_eq_some_iff.1 hd
    rw [if_neg har.symm]
    exact hf'.holds (h.holds d' hd') h.addrs (fun b hb hbs => ht.entries b (hkeys b hb) hbs) ht.holds
  · rw [ht.packs] at hb
    obtain ⟨d', hd', rfl⟩ := Option.map_eq_some_iff.1 hb
    refine hperm'.mem_iff.2 (List.mem_append.2 ?_)
    by_cases hba : b = a
    · rw [if_pos hba] at hy
      have hfirst : g.firstAddr = some y := hy
      exact .inl (Forest.first_mem (hfirst ▸ ht.holds))
    · rw [if_neg hba] at hy
      have hyf := hperm.mem_iff.1 (h.dirEntries b d' y hd' hy)
      exact .inr ((List.mem_append.1 hyf).resolve_left (hfree b d' y hba hd' hy))

namespace Safe

/-- The entries in the directory at `c` are made again, the object at `a` being new. -/
theorem refresh {c : Addr} {u v w : VfsState} {d' : DataPack} (h : s.Safe live f r) (har : a ≠ r)
    (hd : s.packs.lookup a = some d) (hc : c ∈ f.addrs) (he : s.entries.lookup c = some e) (hroot : d.dirEntryRoot = e.nextDir)
    (hfresh : FreshBlocks s.entries e.nextDir mods)
    (hfree : ∀ b d y, b ≠ a → s.packs.lookup b = some d → d.dirEntry = some y → ¬ s.Reaches y e.nextDir)
    (hu : s.dopenCbModule M a mods = .ok u) (hd' : u.pack a = .ok d')
    (hv : u.modEntry c (fun e => { e with nextDir := d'.dirEntryRoot }) = .ok v)
    (hw : v.modPack a (fun x => { x with dirEntry := d'.dirEntryRoot }) = .ok w) : ∃ f', w.Safe live f' r := by
  obtain ⟨dr, hdr, hholds⟩ := h.lookup_root
  obtain ⟨e', sub, he', hsub, hother⟩ := Forest.exists_replaced hholds hc
  obtain rfl := Option.some.inj (he.symm.trans he')
  obtain ⟨f₀, hf₀⟩ := hother .nil
  obtain ⟨rest, hcr, hperm, -⟩ := hf₀.addrs
  obtain ⟨hnd, -, hdis⟩ := List.nodup_append'.1 (hperm.nodup_iff.1 h.addrs)
  obtain ⟨g, hg⟩ := refreshed_of_ok hd he hroot hsub hnd (fun hcs => hdis hcs hcr) hfresh hu hd' hv hw
  obtain ⟨f', hf'⟩ := hother g
  exact ⟨f', h.refreshed hg har hf' fun b d y hb hx hy hys => hfree b d y hb hx hy (Forest.reaches hsub hys)⟩

/-- Opening the root only sets its `dir_entry` to the first entry. -/
theorem vfsDopen_root (h : s.Safe live f r) (hroot : some node = s.rootNode)
    (hrun : s.vfsDopen M node path k mods = .ok (res, s')) : s'.Safe live f r := by
  unfold VfsState.vfsDopen at hrun
  rw [if_pos hroot, h.items.getFileEntryByNode, hroot, h.root, ok_bind] at hrun
  obtain ⟨d, hd, hrun⟩ := bind_eq_ok.1 hrun
  cases hfirst : d.dirEntryRoot with
  | none =>
    simp only [hfirst] at hrun
    cases hrun
    exact h
  | some c =>
    simp only [hfirst] at hrun
    obtain ⟨t, ht, hrun⟩ := bind_eq_ok.1 hrun
    cases hrun
    refine h.modPack ht (fun _ => rfl) (fun _ _ => rfl) fun x y hx hy => ?_
    have hy' : x.dirEntryRoot = some y := hy
    exact Forest.first_mem (hy' ▸ h.holds x hx)

theorem vfsDopen (h : s.Safe live f r) (hv : (VfsCall.dopen node path k mods).Valid s)
    (hm : (VfsCall.dopen node path k mods).Meets s) (hrun : s.vfsDopen M node path k mods = .ok (res, s')) :
    ∃ live' f', s'.Safe live' f' r := by
  by_cases hroot : some node = s.rootNode
  · exact ⟨live, f, h.vfsDopen_root hroot hrun⟩
  · unfold VfsState.vfsDopen at hrun
    rw [if_neg hroot] at hrun
    obtain ⟨hobj, hfresh⟩ := hv hroot
    obtain ⟨⟨res', pDirEntry⟩, hlookup, hrun⟩ := bind_eq_ok.1 hrun
    dsimp only at hrun
    split at hrun
    · cases hrun
      exact ⟨live, f, h⟩
    cases pDirEntry with
    | none => cases hrun
    | some c =>
      obtain ⟨⟨res'', p, t⟩, hcreate, hrun⟩ := bind_eq_ok.1 hrun
      obtain ⟨e, he, hrun⟩ := bind_eq_ok.1 hrun
      obtain ⟨⟨a, u⟩, hset, hrun⟩ := bind_eq_ok.1 hrun
      have hc := h.lookupEntry_mem hlookup
      obtain ⟨dr, hdr, hholds⟩ := h.lookup_root
      have hte : t.entries = s.entries := h.create_entries hroot hobj hcreate
      have he' : s.entries.lookup c = some e := by rw [← hte, entry_ok he]
      obtain ⟨hsafe, hentries, har, ⟨d, hd, hdroot⟩, hold⟩ := h.open_entry hroot hobj
        (fun y hy => Forest.link_mem hholds hc he' (.inr hy)) hcreate hset
      dsimp only at hrun
      cases hcb : e.dopenCb with
      | none =>
        simp only [hcb] at hrun
        cases hrun
        exact ⟨_, f, hsafe⟩
      | some cb =>
        simp only [hcb] at hrun
        obtain ⟨v, hv, hrun⟩ := bind_eq_ok.1 hrun
        obtain ⟨d', hd', hrun⟩ := bind_eq_ok.1 hrun
        obtain ⟨w, hw, hrun⟩ := bind_eq_ok.1 hrun
        obtain ⟨x, hx, hrun⟩ := bind_eq_ok.1 hrun
        cases hrun
        have hrefreshes : s.Refreshes path e := ⟨res', c, hlookup, he', by rw [hcb]; rfl⟩
        refine ⟨_, hsafe.refresh har hd hc (by rw [hentries, he']) hdroot (by rw [hentries]; exact hfresh e hrefreshes) ?_
          hv hd' hw hx⟩
        intro b z y hb hz hy hreach
        obtain ⟨z', hz', hzy⟩ := hold b z hb hz
        exact hm hroot e hrefreshes b z' y hz' (hzy.trans hy) (hreach.congr hentries)

theorem vfsCall {call : VfsCall} (h : s.Safe live f r) (hv : call.Valid s) (hm : call.Meets s)
    (hrun : s.vfsCall K M call = .ok s') : ∃ live' f', s'.Safe live' f' r := by
  cases call with
  | «open» node prevNode path flags k =>
    obtain ⟨⟨res, t⟩, ht, hrun⟩ := bind_eq_ok.1 hrun
    cases hrun
    exact (h.vfsOpen hv.1 hv.2 ht).imp fun _ h => ⟨f, h⟩
  | close node =>
    obtain ⟨⟨res, t⟩, ht, hrun⟩ := bind_eq_ok.1 hrun
    cases hrun
    exact (h.vfsClose hv ht).imp fun _ h => ⟨f, h⟩
  | read node =>
    obtain ⟨⟨res, t⟩, ht, hrun⟩ := bind_eq_ok.1 hrun
    cases hrun
    exact ⟨live, f, h.vfsTransfer ht⟩
  | write node =>
    obtain ⟨⟨res, t⟩, ht, hrun⟩ := bind_eq_ok.1 hrun
    cases hrun
    exact ⟨live, f, h.vfsTransfer ht⟩
  | dopen node path k mods =>
    obtain ⟨⟨res, t⟩, ht, hrun⟩ := bind_eq_ok.1 hrun
    cases hrun
    exact h.vfsDopen hv hm ht
  | dclose node =>
    obtain ⟨⟨res, t⟩, ht, hrun⟩ := bind_eq_ok.1 hrun
    cases hrun
    exact (h.vfsDclose ht).imp fun _ h => ⟨f, h⟩
  | dread node =>
    obtain ⟨⟨res, dirent, t⟩, ht, hrun⟩ := bind_eq_ok.1 hrun
    cases hrun
    exact ⟨live, f, h.vfsDread ht⟩

end Safe

end VfsState

/-- In every run in which the directory is opened only while no `dir_entry` is one of the entries in it, the `dir_entry` of each
`DataPack_t` is null or a live entry, and no read, write or listing goes through a freed one. -/
theorem entriesLive_run (M : ModuleCbs) (s₀ s : VfsState) (f : Forest) (r : Addr) (d : DataPack) (calls : List VfsCall)
    (h₀ : s₀.Mounted f r d) (h : Run (fun s call s' => s.CallStep M call s' ∧ call.Meets s) s₀ calls s) :
    s.EntriesLive ∧ ∀ K node, s.vfsRead K node ≠ .error .freed ∧ s.vfsWrite K node ≠ .error .freed ∧
      s.vfsDread K node ≠ .error .freed := by
  have hsafe : ∃ live f, s.Safe live f r := by
    refine h.invariant (I := fun s => ∃ live f, s.Safe live f r) ?_ ⟨_, f, h₀.safe⟩
    rintro s call s' ⟨live, f, hs⟩ ⟨⟨hv, K, hrun⟩, hm⟩
    exact hs.vfsCall hv hm hrun
  obtain ⟨live, f, hs⟩ := hsafe
  exact ⟨hs.entriesLive, fun K node => ⟨hs.vfsTransfer_ne, hs.vfsTransfer_ne, hs.vfsDread_ne⟩⟩

/-! ### A directory of one module -/

def moduleDirEntry : FileEntry := { name := nameE, stat := some VfsState.statDirTpl, dopenCb := some 0x99 }

def moduleRoot : VfsState where
  packs := Finmap.singleton 1 { node := some 7, dirEntryRoot := some 0x10 }
  lastObj := some 1
  entries := Finmap.singleton 0x10 moduleDirEntry
  rootNode := some 7

theorem moduleRoot_mounted : moduleRoot.Mounted (.cons ⟨0x10, nameE, some VfsState.statDirTpl⟩ .nil .nil) 1
    { node := some 7, dirEntryRoot := some 0x10 } where
  found := rfl
  pack := rfl
  holds := ⟨rfl, _, rfl, rfl, rfl, rfl, rfl⟩
  tree := ⟨⟨⟨by decide, by decide⟩, trivial, trivial⟩, ⟨List.not_mem_nil, trivial, trivial⟩, by decide, ⟨rfl, trivial, trivial⟩⟩
  items := ⟨⟨rfl, rfl, none, rfl, rfl⟩, by
    rintro x (- | ⟨-, hx⟩)
    · exact ⟨_, rfl, rfl⟩
    · cases hx⟩
  only := by
    intro b x hx
    have hmem : b ∈ moduleRoot.packs := Finmap.mem_iff.2 ⟨x, hx⟩
    exact (Finmap.mem_singleton b 1 _).1 hmem
  unread := rfl

/-- The module `f`, with a text segment, for the entry of which there is the block at `a`. -/
def moduleF (a : Addr) : ModuleInfo := ⟨nameF, fun seg => if seg = 0 then 0x10 else 0, fun _ => ⟨some a, some (a + 1), true⟩⟩

def openDir (node : NodePtr) (obj a : Addr) : VfsCall := .dopen node nameE ⟨1, obj⟩ [moduleF a]

section
variable {s : VfsState} {e : FileEntry}

theorem meets_of_none (h : ∀ b ∈ s.packs.keys, (s.packs.lookup b).bind (·.dirEntry) = none) {call : VfsCall} :
    call.Meets s := by
  cases call with
  | dopen node path k mods =>
    intro _ e _ b d a hb ha
    have hnone := h b (Finmap.mem_keys.2 (Finmap.mem_iff.2 ⟨d, hb⟩))
    rw [hb, Option.bind_some, ha] at hnone
    cases hnone
  | «open» | close | read | write | dclose | dread => trivial

theorem refreshes_iff (hdir : s.getDirEntry nameE = .ok (0, some 0x10)) (he : s.entries.lookup 0x10 = some e)
    (hcb : e.dopenCb.isSome) {e' : FileEntry} : s.Refreshes nameE e' ↔ e' = e := by
  constructor
  · rintro ⟨res, a, hlookup, he', -⟩
    rw [hdir] at hlookup
    cases hlookup
    exact Option.some.inj (he'.symm.trans he)
  · rintro rfl
    exact ⟨0, 0x10, hdir, he, hcb⟩

theorem openDir_valid (hdir : s.getDirEntry nameE = .ok (0, some 0x10)) (he : s.entries.lookup 0x10 = some e)
    (hcb : e.dopenCb.isSome) {node : NodePtr} {obj a : Addr} (hobj : obj ∉ s.packs.keys) {m : Dmass.Store FileEntry}
    (hfree : freeEntries s.entries.keys.card s.entries e.nextDir = .ok m) (ha : a ∉ m.keys) :
    (openDir node obj a).Valid s := by
  refine fun _ => ⟨fun _ => hobj, fun e' h => ?_⟩
  obtain rfl := (refreshes_iff hdir he hcb).1 h
  refine ⟨List.nodup_singleton a, fun m' hm' b hb => ?_⟩
  obtain rfl := Except.ok.inj (hfree.symm.trans hm')
  rw [List.mem_singleton.1 hb]
  exact ha

end

theorem entriesLive_closed : ∃ s t u, moduleRoot.vfsCall noCallbacks noModuleCbs (openDir 8 0x100 0x20) = .ok s ∧
    s.vfsCall noCallbacks noModuleCbs (.dclose 8) = .ok t ∧
    t.vfsCall noCallbacks noModuleCbs (openDir 9 0x200 0x30) = .ok u ∧ u.EntriesLive := by
  have hv : (openDir 8 0x100 0x20).Valid moduleRoot := openDir_valid rfl rfl rfl (by decide) rfl (by decide)
  have hm : (openDir 8 0x100 0x20).Meets moduleRoot := meets_of_none (by decide)
  obtain ⟨s, t, u, hs, ht, hu, hv', hm'⟩ : ∃ s t u, moduleRoot.vfsCall noCallbacks noModuleCbs (openDir 8 0x100 0x20) = .ok s ∧
      s.vfsCall noCallbacks noModuleCbs (.dclose 8) = .ok t ∧ t.vfsCall noCallbacks noModuleCbs (openDir 9 0x200 0x30) = .ok u ∧
      (openDir 9 0x200 0x30).Valid t ∧ (openDir 9 0x200 0x30).Meets t :=
    ⟨_, _, _, rfl, rfl, rfl, openDir_valid rfl rfl rfl (by decide) rfl (by decide), meets_of_none (by decide)⟩
  refine ⟨s, t, u, hs, ht, hu, (entriesLive_run noModuleCbs moduleRoot u _ 1 _
    [openDir 8 0x100 0x20, .dclose 8, openDir 9 0x200 0x30] moduleRoot_mounted ?_).1⟩
  exact .cons ⟨⟨hv, noCallbacks, hs⟩, hm⟩ (.cons ⟨⟨trivial, noCallbacks, ht⟩, trivial⟩
    (.cons ⟨⟨hv', noCallbacks, hu⟩, hm'⟩ (.nil _)))

/-- A file that is open when the directory is opened again is read through a freed entry. -/
theorem openDir_twice : (∃ f r d, moduleRoot.Mounted f r d) ∧
    ∃ s, Run (VfsState.CallStep noModuleCbs) moduleRoot [openDir 8 0x100 0x20,
      .open 9 (some 8) (nameE ++ slash :: (nameF ++ segmentSuffix 0)) 1 ⟨2, 0x200⟩, openDir 10 0x300 0x30] s ∧
    s.vfsRead noCallbacks 9 = .error .freed ∧ ¬ s.EntriesLive := by
  have hv : (openDir 8 0x100 0x20).Valid moduleRoot := openDir_valid rfl rfl rfl (by decide) rfl (by decide)
  refine ⟨⟨_, _, _, moduleRoot_mounted⟩, _, .cons ⟨hv, noCallbacks, rfl⟩ (.cons ⟨⟨by decide, fun _ => by decide⟩, noCallbacks, rfl⟩
    (.cons ⟨openDir_valid rfl rfl rfl (by decide) rfl (by decide), noCallbacks, rfl⟩ (.nil _))), rfl, fun hlive => ?_⟩
  obtain ⟨e, he⟩ := hlive 0x200 _ 0x20 rfl rfl
  cases he

end VitaUtility.VfsMountOld
