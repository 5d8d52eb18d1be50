import VitaUtility.VfsMountOld.Calls

/-!
# What opening the directory does to the tree (`module_kernel.c`)

The entries in the directory are freed, and new ones linked one behind the other from the `dir_entry_root` of the `DataPack_t`.
In the tree they come in the place of the old ones.
-/

namespace VitaUtility.VfsMountOld
open Dmass (Addr Store SceIoStat lookup_insert_ite lookup_erase_ite)

/-! ### Other entries in a directory -/

namespace Forest

/-- `f'` is `f` with `g` in the entry at `a`, where `f` has `sub`. -/
inductive Replaced (a : Addr) (sub g : Forest) : Forest → Forest → Prop
  | here {x : Node} {next : Forest} : x.addr = a → Replaced a sub g (cons x sub next) (cons x g next)
  | inside {x : Node} {inner inner' next : Forest} : Replaced a sub g inner inner' →
    Replaced a sub g (cons x inner next) (cons x inner' next)
  | after {x : Node} {inner next next' : Forest} : Replaced a sub g next next' →
    Replaced a sub g (cons x inner next) (cons x inner next')

variable {f f' g sub inner next : Forest} {x : Node} {s s' : VfsState} {p q : Option Addr} {a b c : Addr} {e : FileEntry}
  {P : Node → Prop}

theorem first_mem (h : s.Holds (some a) f) : a ∈ f.addrs := by
  cases f with
  | nil => cases h
  | cons x sub next =>
    cases h.1
    exact List.mem_cons_self

/-- What is in an entry can be replaced. -/
theorem exists_replaced (h : s.Holds p f) (ha : a ∈ f.addrs) : ∃ e sub, s.entries.lookup a = some e ∧
    s.Holds e.nextDir sub ∧ ∀ g, ∃ f', Replaced a sub g f f' := by
  induction f generalizing p with
  | nil => cases ha
  | cons x inner next ihs ihn =>
    obtain ⟨-, e, he, -, -, hsub, hnext⟩ := h
    rw [addrs, List.mem_cons, List.mem_append] at ha
    rcases ha with rfl | ha | ha
    · exact ⟨e, inner, he, hsub, fun g => ⟨_, .here rfl⟩⟩
    · obtain ⟨e, sub, he, hsub, hr⟩ := ihs hsub ha
      exact ⟨e, sub, he, hsub, fun g => (hr g).elim fun f' h => ⟨_, .inside h⟩⟩
    · obtain ⟨e, sub, he, hsub, hr⟩ := ihn hnext ha
      exact ⟨e, sub, he, hsub, fun g => (hr g).elim fun f' h => ⟨_, .after h⟩⟩

theorem link_mem (h : s.Holds p f) (ha : a ∈ f.addrs) (he : s.entries.lookup a = some e)
    (hc : e.next = some c ∨ e.nextDir = some c) : c ∈ f.addrs := by
  induction f generalizing p with
  | nil => cases ha
  | cons x inner next ihs ihn =>
    obtain ⟨-, e', he', -, -, hsub, hnext⟩ := h
    rw [addrs, List.mem_cons, List.mem_append] at ha ⊢
    rcases ha with rfl | ha | ha
    · obtain rfl := Option.some.inj (he.symm.trans he')
      rcases hc with hc | hc
      · rw [hc] at hnext
        exact .inr (.inr (first_mem hnext))
      · rw [hc] at hsub
        exact .inr (.inl (first_mem hsub))
    · exact .inr (.inl (ihs hsub ha))
    · exact .inr (.inr (ihn hnext ha))

/-- The addresses are those of the rest with those of `sub`, and then with those of `g`. -/
theorem Replaced.addrs (h : Replaced a sub g f f') : ∃ rest, a ∈ rest ∧ f.addrs.Perm (sub.addrs ++ rest) ∧
    f'.addrs.Perm (g.addrs ++ rest) := by
  induction h with
  | @here x next hx =>
    exact ⟨x.addr :: next.addrs, hx ▸ List.mem_cons_self, List.perm_middle.symm, List.perm_middle.symm⟩
  | @inside x inner inner' next _ ih =>
    obtain ⟨rest, ha, hf, hf'⟩ := ih
    have hmove {l m : List Addr} (h : l.Perm (m ++ rest)) :
        (x.addr :: (l ++ next.addrs)).Perm (m ++ x.addr :: (rest ++ next.addrs)) := by
      refine .trans (.cons _ ?_) List.perm_middle.symm
      rw [← List.append_assoc]
      exact h.append_right _
    exact ⟨x.addr :: (rest ++ next.addrs), by simp [ha], hmove hf, hmove hf'⟩
  | @after x inner next next' _ ih =>
    obtain ⟨rest, ha, hf, hf'⟩ := ih
    have hmove {l m : List Addr} (h : l.Perm (m ++ rest)) :
        (x.addr :: (inner.addrs ++ l)).Perm (m ++ x.addr :: (inner.addrs ++ rest)) := by
      refine .trans (.cons _ ((h.append_left _).trans ?_)) List.perm_middle.symm
      rw [← List.append_assoc, ← List.append_assoc]
      exact List.perm_append_comm.append_right _
    exact ⟨x.addr :: (inner.addrs ++ rest), by simp [ha], hmove hf, hmove hf'⟩

theorem Replaced.all (h : Replaced a sub g f f') (hf : f.All P) (hg : g.All P) : f'.All P := by
  induction h with
  | here _ => exact ⟨hf.1, hg, hf.2.2⟩
  | inside _ ih => exact ⟨hf.1, ih hf.2.1, hf.2.2⟩
  | after _ ih => exact ⟨hf.1, hf.2.1, ih hf.2.2⟩

/-- Nothing is changed outside of a part where it is replaced. -/
theorem Replaced.same (hr : Replaced a sub g f f') (hb : b ∉ f.addrs) (hframe : b ∉ sub.addrs →
    s'.entries.lookup b = (s.entries.lookup b).map fun e => if b = a then { e with nextDir := q } else e) :
    s'.entries.lookup b = s.entries.lookup b := by
  obtain ⟨rest, ha, hperm, -⟩ := hr.addrs
  rw [hframe fun hbs => hb (hperm.mem_iff.2 (List.mem_append_left _ hbs))]
  refine map_self fun _ => if_neg ?_
  rintro rfl
  exact hb (hperm.mem_iff.2 (List.mem_append_right _ ha))

/-- With the link in the entry at `a` set to the first of `g` the links spell out the other tree. -/
theorem Replaced.holds (hr : Replaced a sub g f f') (h : s.Holds p f) (hnd : f.addrs.Nodup)
    (hframe : ∀ b ∈ f.addrs, b ∉ sub.addrs →
      s'.entries.lookup b = (s.entries.lookup b).map fun e => if b = a then { e with nextDir := q } else e)
    (hg : s'.Holds q g) : s'.Holds p f' := by
  induction hr generalizing p with
  | @here x next hx =>
    subst hx
    obtain ⟨rfl, e, he, hname, hstat, -, hnext⟩ := h
    rw [Forest.addrs, List.nodup_cons, List.nodup_append', List.mem_append, not_or] at hnd
    obtain ⟨⟨hxs, hxn⟩, -, -, hdis⟩ := hnd
    have hself := hframe x.addr List.mem_cons_self hxs
    rw [he, Option.map_some, if_pos rfl] at hself
    refine ⟨rfl, _, hself, hname, hstat, hg, holds_congr hnext fun b hb => ?_⟩
    rw [hframe b (by simp [Forest.addrs, hb]) fun hb' => hdis hb' hb]
    refine map_self fun _ => if_neg ?_
    rintro rfl
    exact hxn hb
  | @inside x inner inner' next hr ih =>
    obtain ⟨rfl, e, he, hname, hstat, hsub, hnext⟩ := h
    rw [Forest.addrs, List.nodup_cons, List.nodup_append', List.mem_append, not_or] at hnd
    obtain ⟨⟨hxi, -⟩, hndi, -, hdis⟩ := hnd
    have hsame : ∀ b ∈ (cons x inner next).addrs, b ∉ inner.addrs → s'.entries.lookup b = s.entries.lookup b :=
      fun b hb hbi => hr.same hbi (hframe b hb)
    refine ⟨rfl, e, (hsame _ List.mem_cons_self hxi).trans he, hname, hstat, ih hsub hndi fun b hb => ?_,
      holds_congr hnext fun b hb => hsame b (by simp [Forest.addrs, hb]) fun hb' => hdis hb' hb⟩
    exact hframe b (by simp [Forest.addrs, hb])
  | @after x inner next next' hr ih =>
    obtain ⟨rfl, e, he, hname, hstat, hsub, hnext⟩ := h
    rw [Forest.addrs, List.nodup_cons, List.nodup_append', List.mem_append, not_or] at hnd
    obtain ⟨⟨-, hxn⟩, -, hndn, hdis⟩ := hnd
    have hsame : ∀ b ∈ (cons x inner next).addrs, b ∉ next.addrs → s'.entries.lookup b = s.entries.lookup b :=
      fun b hb hbn => hr.same hbn (hframe b hb)
    refine ⟨rfl, e, (hsame _ List.mem_cons_self hxn).trans he, hname, hstat,
      holds_congr hsub fun b hb => hsame b (by simp [Forest.addrs, hb]) fun hb' => hdis hb hb', ih hnext hndn fun b hb => ?_⟩
    exact hframe b (by simp [Forest.addrs, hb])

/-! ### The end of the row -/

theorem addrs_addIn_nil : (f.addIn [] x).addrs = f.addrs ++ [x.addr] := by
  induction f with
  | nil => rfl
  | cons y sub next _ ih => rw [addIn, addrs, ih, addrs, List.cons_append, List.append_assoc]

theorem endLink_addIn_nil {L : Link} : (f.addIn [] x).endLink L [] = .next x.addr := by
  induction f generalizing L with
  | nil => rfl
  | cons y sub next _ ih => exact ih

end Forest

/-- The entries in the directory are freed, and no others changed. -/
theorem freeEntries_ok {s : VfsState} {f : Forest} {p : Option Addr} {n : Nat} {m m' : Store FileEntry}
    (h : s.Holds p f) (hnd : f.addrs.Nodup) (hm : ∀ b ∈ f.addrs, m.lookup b = s.entries.lookup b)
    (hfree : freeEntries n m p = .ok m') {b : Addr} (hb : b ∉ f.addrs) : m'.lookup b = m.lookup b := by
  induction f generalizing p n m with
  | nil =>
    obtain rfl : p = none := h
    unfold freeEntries at hfree
    rw [Except.ok.inj hfree]
  | cons x sub next _ ih =>
    obtain ⟨rfl, e, he, -, -, -, hnext⟩ := h
    rw [Forest.addrs, List.nodup_cons, List.nodup_append', List.mem_append, not_or] at hnd
    obtain ⟨⟨-, hxn⟩, -, hndn, -⟩ := hnd
    rw [Forest.addrs, List.mem_cons, List.mem_append, not_or, not_or] at hb
    cases n with
    | zero => cases hfree
    | succ n =>
      rw [freeEntries, hm _ List.mem_cons_self, he] at hfree
      dsimp only at hfree
      split at hfree
      · cases hfree
      · have hrest : ∀ c ∈ next.addrs, (m.erase x.addr).lookup c = s.entries.lookup c := by
          intro c hc
          rw [lookup_erase_ite, if_neg (ne_of_mem_of_not_mem hc hxn)]
          exact hm c (by simp [Forest.addrs, hc])
        rw [ih hnext hndn hrest hfree hb.2.2, lookup_erase_ite, if_neg hb.1]

/-! ### The new entries -/

/-- The block that a segment takes for its entry. -/
def ModuleInfo.newBlock (m : ModuleInfo) (seg : Nat) : Option Addr := if m.memsz seg = 0 then none else (m.blocks seg).entry

def ModuleInfo.newBlocks (m : ModuleInfo) : List Addr := (m.newBlock 0).toList ++ (m.newBlock 1).toList

/-- The heap gives blocks that are free once the entries from `p` on are freed. -/
structure FreshBlocks (entries : Store FileEntry) (p : Option Addr) (mods : List ModuleInfo) : Prop where
  nodup : (mods.flatMap ModuleInfo.newBlocks).Nodup
  free : ∀ m, freeEntries entries.keys.card entries p = .ok m → ∀ a ∈ mods.flatMap ModuleInfo.newBlocks, a ∉ m.keys

namespace VfsState

/-- `t` is `s` with the entries `g`, the first of which the `dir_entry_root` of the object at `r` leads to. -/
structure Rows (s t : VfsState) (r : Addr) (g : Forest) : Prop where
  holds : t.Holds g.firstAddr g
  nodup : g.addrs.Nodup
  stats : g.All fun x => x.stat.isSome
  fresh : ∀ b ∈ g.addrs, b ∉ s.entries.keys
  old : ∀ b, b ∉ g.addrs → t.entries.lookup b = s.entries.lookup b
  pack : ∀ b, t.packs.lookup b = (s.packs.lookup b).map fun d => if b = r then { d with dirEntryRoot := g.firstAddr } else d
  lastObj : t.lastObj = s.lastObj
  rootNode : t.rootNode = s.rootNode

variable {s t t' : VfsState} {r a : Addr} {g : Forest} {d : DataPack} {e : FileEntry} {L' : Link} {K : ModuleCbs}
  {m : ModuleInfo} {mods : List ModuleInfo} {stat : SceIoStat} {seg : Nat}

theorem rows_nil (hd : s.packs.lookup r = some d) (hroot : d.dirEntryRoot = none) : s.Rows s r .nil := by
  refine ⟨rfl, List.nodup_nil, trivial, nofun, fun _ _ => rfl, fun b => ?_, rfl, rfl⟩
  by_cases hb : b = r
  · rw [hb, hd, Option.map_some, if_pos rfl, Forest.firstAddr, ← hroot]
  · exact (Forest.map_self fun _ => if_neg hb).symm

theorem Rows.not_mem_keys (h : s.Rows t r g) (ha : a ∉ g.addrs) (hs : a ∉ s.entries.keys) : a ∉ t.entries.keys := by
  rw [Finmap.mem_keys, ← Finmap.lookup_eq_none] at hs ⊢
  rw [h.old a ha, hs]

theorem Rows.adds (h : s.Rows t r g) (ha : a ∉ g.addrs) (hs : a ∉ s.entries.keys)
    (hadds : t.Adds t' (g.endLink (.root r) []) a e) (hstat : e.stat.isSome) (hnext : e.next = none)
    (hnextDir : e.nextDir = none) : s.Rows t' r (g.addIn [] ⟨a, e.name, e.stat⟩) := by
  have hnil : g.Inside [] g := rfl
  have haddrs : (g.addIn [] ⟨a, e.name, e.stat⟩).addrs = g.addrs ++ [a] := Forest.addrs_addIn_nil
  refine ⟨Forest.holds_addIn hadds rfl rfl hnext hnextDir h.holds hnil (fun hne => absurd rfl hne) h.nodup ha,
    Forest.nodup_addIn h.nodup ha, h.stats.addIn hstat, fun b hb => ?_, fun b hb => ?_, fun b => ?_,
    hadds.lastObj.trans h.lastObj, hadds.rootNode.trans h.rootNode⟩
  · rw [haddrs, List.mem_append, List.mem_singleton] at hb
    rcases hb with hb | rfl
    · exact h.fresh b hb
    · exact hs
  · rw [haddrs, List.mem_append, List.mem_singleton, not_or] at hb
    rw [hadds.old b hb.2, ← h.old b hb.1]
    refine Forest.map_self fun _ => Forest.setIn_of_ne ?_
    rcases @Forest.endLink_holder g [] (.root r) with ⟨-, heq⟩ | ⟨c, hc, heq⟩
    · rw [heq]
      nofun
    · rw [heq]
      rintro ⟨rfl⟩
      exact hb.1 hc
  · rw [hadds.pack, h.pack, Option.map_map]
    refine Option.map_congr fun d _ => ?_
    rcases @Forest.endLink_holder g [] (.root r) with ⟨rfl, heq⟩ | ⟨c, hc, heq⟩
    · rw [heq, Function.comp_apply, Link.setInPack]
      split <;> rfl
    · have hne : g ≠ .nil := by
        rintro rfl
        cases hc
      rw [Forest.firstAddr_addIn hne]
      generalize g.endLink (.root r) [] = L at heq
      cases L with
      | root r => cases heq
      | next c => rfl
      | nextDir c => rfl

/-- A segment with any bytes adds its block to the row. -/
theorem addSegment_rows (h : s.Rows t r g) (hd : s.packs.lookup r = some d)
    (hnew : ∀ a ∈ m.newBlock seg, a ∉ g.addrs ∧ a ∉ s.entries.keys)
    (hrun : t.addSegment K m stat seg (g.endLink (.root r) []) = .ok (t', L')) :
    ∃ g', s.Rows t' r g' ∧ L' = g'.endLink (.root r) [] ∧ g'.addrs = g.addrs ++ (m.newBlock seg).toList := by
  unfold addSegment at hrun
  unfold ModuleInfo.newBlock at hnew ⊢
  by_cases hsize : m.memsz seg = 0
  · rw [if_pos hsize] at hrun ⊢
    cases hrun
    exact ⟨g, h, rfl, (List.append_nil _).symm⟩
  rw [if_neg hsize] at hrun hnew ⊢
  cases hentry : (m.blocks seg).entry with
  | none =>
    rw [hentry] at hrun
    cases hrun
  | some a =>
    rw [hentry] at hrun hnew
    obtain ⟨ha, hs⟩ := hnew a rfl
    obtain ⟨d', hd'⟩ : ∃ d', t.packs.lookup r = some d' := ⟨_, by rw [h.pack, hd, Option.map_some]⟩
    obtain ⟨u, hu, hadds⟩ := setLink_adds (endLink_live h.holds hd') (h.not_mem_keys ha hs)
    obtain ⟨v, hv, hadds⟩ := hadds.modEntry fun _ => m.entry K seg stat
    dsimp only at hrun
    rw [hu, ok_bind] at hrun
    split at hrun
    · cases hrun
    · rw [hv, ok_bind] at hrun
      cases hrun
      refine ⟨_, h.adds ha hs hadds rfl rfl rfl, ?_, Forest.addrs_addIn_nil⟩
      rw [Forest.endLink_addIn_nil]

theorem addModule_rows {stat' : SceIoStat} (h : s.Rows t r g) (hd : s.packs.lookup r = some d)
    (hnd : (g.addrs ++ m.newBlocks).Nodup) (hnew : ∀ a ∈ m.newBlocks, a ∉ s.entries.keys)
    (hrun : addModule K (t, g.endLink (.root r) [], stat) m = .ok (t', L', stat')) :
    ∃ g', s.Rows t' r g' ∧ L' = g'.endLink (.root r) [] ∧ g'.addrs = g.addrs ++ m.newBlocks := by
  unfold addModule at hrun
  dsimp only at hrun
  obtain ⟨⟨u, L⟩, htext, hrun⟩ := bind_eq_ok.1 hrun
  obtain ⟨⟨v, L₂⟩, hdata, hrun⟩ := bind_eq_ok.1 hrun
  cases hrun
  rw [ModuleInfo.newBlocks] at hnd hnew
  rw [← List.append_assoc, List.nodup_append'] at hnd
  obtain ⟨hnd, -, hdis⟩ := hnd
  rw [List.nodup_append'] at hnd
  obtain ⟨g₁, h₁, rfl, hg₁⟩ := addSegment_rows h hd
    (fun a ha => ⟨fun ha' => hnd.2.2 ha' (by simpa using ha), hnew a (by simp [Option.mem_def.1 ha])⟩) htext
  obtain ⟨g₂, h₂, rfl, hg₂⟩ := addSegment_rows h₁ hd
    (fun a ha => ⟨fun ha' => hdis (hg₁ ▸ ha') (by simpa using ha), hnew a (by simp [Option.mem_def.1 ha])⟩) hdata
  exact ⟨g₂, h₂, rfl, by rw [hg₂, hg₁, ModuleInfo.newBlocks, List.append_assoc]⟩

theorem addModules_rows {x : VfsState × Link × SceIoStat} (h : s.Rows t r g) (hd : s.packs.lookup r = some d)
    (hnd : (g.addrs ++ mods.flatMap ModuleInfo.newBlocks).Nodup)
    (hnew : ∀ a ∈ mods.flatMap ModuleInfo.newBlocks, a ∉ s.entries.keys)
    (hrun : mods.foldlM (addModule K) (t, g.endLink (.root r) [], stat) = .ok x) : ∃ g', s.Rows x.1 r g' := by
  induction mods generalizing t g stat with
  | nil =>
    cases hrun
    exact ⟨g, h⟩
  | cons m mods ih =>
    rw [List.flatMap_cons] at hnd hnew
    rw [List.foldlM_cons] at hrun
    obtain ⟨⟨u, L, stat'⟩, hm, hrun⟩ := bind_eq_ok.1 hrun
    rw [← List.append_assoc] at hnd
    obtain ⟨g', h', rfl, hg'⟩ := addModule_rows h hd (List.nodup_append'.1 hnd).1
      (fun a ha => hnew a (List.mem_append_left _ ha)) hm
    exact ih h' (hg' ▸ hnd) (fun a ha => hnew a (List.mem_append_right _ ha)) hrun

/-- The directory has new entries only, and the entries that were not in it are left as they are. -/
theorem dopenCbModule_ok {sub : Forest} (hd : s.packs.lookup r = some d) (hsub : s.Holds d.dirEntryRoot sub)
    (hnd : sub.addrs.Nodup) (hfresh : FreshBlocks s.entries d.dirEntryRoot mods) (hrun : s.dopenCbModule K r mods = .ok t) :
    ∃ m g, (∀ b, b ∉ sub.addrs → m.lookup b = s.entries.lookup b) ∧
      Rows { s with packs := s.packs.insert r { d with dirEntryRoot := none }, entries := m } t r g := by
  unfold dopenCbModule at hrun
  rw [pack, hd, ok_bind] at hrun
  obtain ⟨m, hm, hrun⟩ := bind_eq_ok.1 hrun
  rw [modPack, hd, ok_bind] at hrun
  split at hrun
  · cases hrun
  obtain ⟨x, hx, hrun⟩ := bind_eq_ok.1 hrun
  cases hrun
  have hperm := (List.reverse_perm mods).flatMap_right ModuleInfo.newBlocks
  have hempty : (s.packs.insert r { d with dirEntryRoot := none }).lookup r = some { d with dirEntryRoot := none } := by
    rw [lookup_insert_ite, if_pos rfl]
  obtain ⟨g, hg⟩ := addModules_rows (rows_nil hempty rfl) hempty (hperm.nodup_iff.2 hfresh.nodup)
    (fun a ha => hfresh.free m hm a (hperm.mem_iff.1 ha)) hx
  exact ⟨m, g, fun b hb => freeEntries_ok hsub hnd (fun _ _ => rfl) hm hb, hg⟩

end VfsState

end VitaUtility.VfsMountOld
