import VitaUtility.Dmass.Offsets
import VitaUtility.Dmass.Paths
import VitaUtility.Dmass.Vnodes

/-!
# Listing a directory while it grows

A handle that lists a directory keeps a pointer to the child it reports next. New children are put before all
others and opening or closing another handle relinks the objects only, so the siblings from the cursor on stay
what they were at the open, whatever such calls come in between.
-/

namespace VitaUtility.Dmass
open VfsState

variable {s s₀ s' : VfsState} {k : Answers} {r : Int} {a b d e : Addr} {v w : NodePtr} {h : FilePtr} {key : Int32}
  {f f' : FapsDmassFs} {c : CStr} {cs : List Addr} {i : Nat}

/-! ### The object of a key -/

/-- The object of one key is found past an object of another. -/
theorem search_append_cons {l₁ l₂ : List FapsDmassFsX} {x : FapsDmassFsX} (hx : x.handlerIndex ≠ key) :
    searchDmassCtlData key (l₁ ++ x :: l₂) = searchDmassCtlData key (l₁ ++ l₂) := by
  induction l₁ with
  | nil => exact if_neg hx.symm
  | cons y l₁ ih =>
    rw [List.cons_append, List.cons_append, searchDmassCtlData, searchDmassCtlData, ih]

/-- A write through the pointer to an object is seen by the next search. -/
theorem search_modCtlData {g : FapsDmassFsX → FapsDmassFsX} (hg : ∀ x, (g x).handlerIndex = x.handlerIndex)
    (l : List FapsDmassFsX) : searchDmassCtlData key (modCtlData key g l) = (searchDmassCtlData key l).map g := by
  induction l with
  | nil => rfl
  | cons y l ih =>
    rw [modCtlData, searchDmassCtlData]
    by_cases hy : key = y.handlerIndex
    · rw [if_pos hy, if_pos hy, searchDmassCtlData, if_pos (by rw [hg]; exact hy)]
      rfl
    · rw [if_neg hy, if_neg hy, searchDmassCtlData, if_neg hy, ih]

/-! ### What other calls keep -/

/-- What a listing by the handle `h` reads of an entry. -/
def listView (h : FilePtr) (f : FapsDmassFs) : Option Addr × Option NameBlock × Option FapsDmassFsX :=
  (f.next, f.name, searchDmassCtlData h.toInt32 f.pDmassFsX)

/-- No vnode has lost its entry, and no entry what a listing by `h` reads. -/
structure ListKept (h : FilePtr) (s s' : VfsState) : Prop where
  nodes : ∀ v e, s.devInfo v = some e → s'.devInfo v = some e
  entries : ∀ b x, s.view (listView h) b = some x → s'.view (listView h) b = some x

namespace ListKept

theorem refl : ListKept h s s := ⟨fun _ _ => id, fun _ _ => id⟩

theorem of_view (hn : s'.vnodes = s.vnodes) (hv : ∀ b, s'.view (listView h) b = s.view (listView h) b) :
    ListKept h s s' := by
  refine ⟨fun v e he => ?_, fun b x hx => ?_⟩
  · unfold devInfo
    rwa [hn]
  · rwa [hv]

/-- Another content of the entry `e`, which has the same links, name and object of `h`. -/
theorem replace (hf : s.entries.lookup e = some f) (hent : s'.entries = s.entries.insert e f')
    (hf' : listView h f' = listView h f) (hn : ∀ v e, s.devInfo v = some e → s'.devInfo v = some e) :
    ListKept h s s' := by
  refine ⟨hn, fun b x hx => ?_⟩
  rwa [view_insert_same hf hent hf']

end ListKept

/-- Giving a vnode a size keeps its entry. -/
theorem devInfo_setSize (hs' : s'.vnodes = s.vnodes ∨ ∃ w, ∃ size : Int,
    s'.vnodes = modifyAt s.vnodes w fun n => { n with stSize := size }) (hv : s.devInfo v = some e) :
    s'.devInfo v = some e := by
  obtain ⟨n, hn, he⟩ := devInfo_eq_some.1 hv
  rcases hs' with hs' | ⟨w, size, hs'⟩
  · exact devInfo_eq_some.2 ⟨n, by rw [hs', hn], he⟩
  · unfold devInfo
    rw [hs', lookup_modifyAt]
    split
    · subst v
      rw [hn]
      exact he
    · rw [hn]
      exact he

/-- The same for a write, which gives the size only when it has grown. -/
theorem devInfo_grown {c : Prop} [Decidable c] {size : Int} (hs' : s'.vnodes =
    if c then modifyAt s.vnodes w fun n => { n with stSize := size } else s.vnodes) (hv : s.devInfo v = some e) :
    s'.devInfo v = some e := by
  refine devInfo_setSize ?_ hv
  rw [hs']
  split
  · exact .inr ⟨_, _, rfl⟩
  · exact .inl rfl

/-- A vnode that was not in use is the vnode of an entry now. -/
theorem devInfo_insert_unused {n : SceVfsNode} (hw : w ∉ s.nodesInUse) (hs' : s'.vnodes = s.vnodes.insert w n)
    (hv : s.devInfo v = some e) : s'.devInfo v = some e := by
  have hvw : v ≠ w := by
    rintro rfl
    rw [devInfo_eq_none_of_unused hw] at hv
    cases hv
  unfold devInfo
  rwa [hs', lookup_insert_ite, if_neg hvw]

theorem listKept_makeEntry {mode unk78 stAttr : UInt32} {fileInfo : SceVfsPath} {out : Option NodePtr}
    (hs : makeEntry (createDmassInfo mode) unk78 stAttr k v fileInfo s = .ok (r, out, s')) : ListKept h s s' := by
  rcases makeEntry_ok hs with ⟨-, rfl⟩ | ⟨e, leak, name, bufs, n, d, fd, hB, -, -, -, -, hs⟩
  · exact .refl
  set s₁ : VfsState := { s with entries := s.entries.insert e (newDmassFs mode k name), bufs := bufs } with hs₁
  have hview : ∀ b x, s.view (listView h) b = some x → (s₁.pushEntry d e).view (listView h) b = some x := by
    intro b x hx
    obtain ⟨g, hg, rfl⟩ := view_eq_some.1 hx
    -- the new entry is the only one that gets a new `next`
    have hbe : b ≠ e := by
      rintro rfl
      exact hB.fresh (mem_live.2 (.inl (Finmap.mem_iff.2 ⟨g, hg⟩)))
    have hkeep : (s₁.pushEntry d e).view (listView h) b = s₁.view (listView h) b := by
      refine (view_modEntry (by intro; rfl)).trans ?_
      unfold view
      rw [lookup_modEntry, if_neg hbe]
    rw [hkeep]
    unfold view
    rw [hs₁, lookup_insert_ite, if_neg hbe, hg]
    rfl
  rcases hs with ⟨-, vnodes, hk, rfl⟩ | ⟨-, w, hw, -, rfl⟩
  · exact ⟨fun v e he => (hk.devInfo rfl).trans he, hview⟩
  · refine ⟨fun v e he => devInfo_insert_unused hw rfl he, fun b x hx => ?_⟩
    exact (view_modEntry (by intro; rfl)).trans (hview b x hx)

theorem listKept_handleDropped {g : FilePtr} (hgh : g ≠ h) (hs : HandleDropped s s' e g.toInt32) :
    ListKept h s s' := by
  obtain ⟨f, l₁, x, l₂, hf, hl, hx, -, rfl⟩ := hs
  refine .replace hf (modifyAt_eq hf _) ?_ fun _ _ => id
  unfold listView
  rw [hl, search_append_cons]
  rw [hx]
  exact fun hg => hgh (handleKey_inj.1 hg)

theorem listKept_chstatEntry {stat : SceIoStat} {bit : UInt32} (hs : chstatEntry k v e stat bit s = .ok (r, s')) :
    ListKept h s s' := by
  obtain ⟨f, mode, hf, -, ⟨times, -, -, -, rfl⟩ | ⟨-, -, n, data, bufs, times, -, -, -, -, rfl⟩⟩ := chstatEntry_ok hs
  · exact .replace hf rfl rfl fun _ _ => id
  · exact .replace hf rfl rfl fun _ _ => devInfo_setSize (.inr ⟨_, _, rfl⟩)

/-- The calls between the `vop_dread`s by `h`: creations, data calls, and listing and opening by other handles. -/
def otherCall (h : FilePtr) : VopCall → Prop
  | .create .. | .mkdir .. | .lookup .. => True
  | .read .. | .write .. | .lseek .. | .pread .. | .pwrite .. | .chstat .. | .chstatByFd .. => True
  | .open _ argp _ => argp.pVfsFileObject ≠ h
  | .close argp => argp.pVfsFileObject ≠ h
  | .dopen _ argp => argp.pVfsFileObject ≠ h
  | .dclose argp => argp.pVfsFileObject ≠ h
  | .dread argp => argp.pVfsFileObject ≠ h
  | _ => False

theorem listKept_step {call : VopCall} (hc : otherCall h call) (hs : VopStep s call r s') : ListKept h s s' := by
  have hkey : ∀ {g : FilePtr}, g ≠ h → h.toInt32 ≠ g.toInt32 := fun hg hk => hg (handleKey_inj.1 hk.symm)
  unfold VopStep at hs
  cases call with
  | «open» k argp object =>
    rcases vopOpen_ok hs with ⟨-, rfl⟩ | ⟨-, n, e, f, a, -, -, hf, -, o, -, rfl⟩
    · exact .of_view rfl fun _ => rfl
    · refine .replace hf rfl ?_ fun _ _ => id
      unfold listView
      rw [searchDmassCtlData, if_neg (hkey hc)]
  | create k argp =>
    obtain ⟨out, hs⟩ := dropOut_eq_ok.1 hs
    exact listKept_makeEntry hs
  | close argp =>
    rcases vopClose_ok hs with ⟨-, rfl⟩ | ⟨-, n, e, -, -, hd⟩
    · exact .refl
    · exact listKept_handleDropped hc hd
  | lookup k argp =>
    obtain ⟨out, hs⟩ := dropOut_eq_ok.1 hs
    rcases vopPartInit_ok hs with ⟨-, vnodes, hk, rfl⟩ | ⟨-, n, e, f, w, -, -, hf, hw, -, rfl⟩
    · exact ⟨fun v e he => (hk.devInfo rfl).trans he, fun _ _ => id⟩
    · refine ⟨fun v e he => devInfo_insert_unused hw rfl he, fun b x hx => ?_⟩
      exact (view_modEntry (by intro; rfl)).trans hx
  | read argp =>
    obtain ⟨out, hs⟩ := dropOut_eq_ok.1 hs
    rcases vopRead_ok hs with rfl | ⟨n, e, f, m, -, -, -, -, -, rfl⟩
    · exact .refl
    · exact .of_view rfl fun _ => rfl
  | write k argp =>
    rcases vopWrite_ok hs with ⟨-, rfl⟩ | ⟨n, e, f, data, bufs, -, -, hf, -, -, -, rfl⟩
    · exact .refl
    · exact .replace hf rfl rfl fun _ _ => devInfo_grown rfl
  | lseek argp =>
    rcases vopLseek_ok hs with ⟨-, rfl⟩ | ⟨-, n, -, -, rfl⟩
    · exact .refl
    · exact .of_view rfl fun _ => rfl
  | mkdir k argp =>
    obtain ⟨out, hs⟩ := dropOut_eq_ok.1 hs
    rcases vopMkdir_ok hs with ⟨-, rfl⟩ | ⟨n, d, f, -, -, -, -, hs⟩
    · exact .refl
    · exact listKept_makeEntry hs
  | dopen k argp =>
    rcases vopDopen_ok hs with ⟨-, rfl⟩ | ⟨-, n, e, f, a, -, -, hf, -, rfl⟩
    · exact .refl
    · refine .replace hf (modifyAt_eq hf _) ?_ fun _ _ => id
      unfold listView
      rw [searchDmassCtlData, if_neg (hkey hc)]
  | dclose argp =>
    rcases vopDclose_ok hs with ⟨-, rfl⟩ | ⟨-, n, e, -, -, hd⟩
    · exact .refl
    · exact listKept_handleDropped hc hd
  | dread argp =>
    obtain ⟨out, hs⟩ := dropOut_eq_ok.1 hs
    rcases vopDread_ok hs with ⟨-, rfl⟩ | ⟨-, n, e, f, l₁, x, l₂, a, g, -, -, hf, hl, hx, -, -, rfl⟩
    · exact .refl
    · have hne : x.handlerIndex ≠ h.toInt32 := by
        rw [hx]
        exact (hkey hc).symm
      refine .replace hf (modifyAt_eq hf _) ?_ fun _ _ => id
      unfold listView
      rw [hl, search_append_cons hne, search_append_cons (x := { x with current := g.next }) hne]
  | chstat k argp =>
    rcases vopChstat_ok hs with ⟨-, rfl⟩ | ⟨e, -, hs⟩
    · exact .refl
    · exact listKept_chstatEntry hs
  | pread argp =>
    obtain rfl := VopStep.pread_eq hs
    exact .refl
  | pwrite k argp =>
    rcases vopPwrite_ok hs with ⟨-, rfl⟩ | ⟨n, e, f, data, bufs, -, -, hf, -, -, -, rfl⟩
    · exact .refl
    · exact .replace hf rfl rfl fun _ _ => devInfo_grown rfl
  | chstatByFd k argp =>
    rcases vopChstatByFd_ok hs with ⟨-, rfl⟩ | ⟨n, e, -, -, hs⟩
    · exact .refl
    · exact listKept_chstatEntry hs
  | _ => exact hc.elim

/-! ### The cursor -/

/-- The handle `h`, opened in the state `s₀` on the directory `d` of the vnode `v`, has reported the first `i` of
the children `cs`. -/
structure ListingAt (s₀ : VfsState) (v : NodePtr) (h : FilePtr) (d : Addr) (cs : List Addr) (i : Nat)
    (s : VfsState) : Prop where
  node : s.devInfo v = some d
  cursor : ∃ f x, s.entries.lookup d = some f ∧ searchDmassCtlData h.toInt32 f.pDmassFsX = some x ∧
    Chain s.next? x.current (cs.drop i)
  names : ∀ a ∈ cs, ∀ c, s₀.nameOf a = some c → s.nameOf a = some c

namespace ListKept

theorem lookup (hk : ListKept h s s') (hf : s.entries.lookup b = some f) :
    ∃ f', s'.entries.lookup b = some f' ∧ listView h f' = listView h f :=
  view_eq_some.1 (hk.entries b _ (view_eq_some.2 ⟨f, hf, rfl⟩))

theorem chain (hk : ListKept h s s') {p : Option Addr} {l : List Addr} (hl : Chain s.next? p l) :
    Chain s'.next? p l := by
  refine hl.congr fun b hb => ?_
  obtain ⟨q, hq⟩ := hl.live hb
  obtain ⟨f, hf, rfl⟩ := Option.map_eq_some_iff.1 hq
  obtain ⟨f', hf', hview⟩ := hk.lookup hf
  rw [hq]
  unfold next?
  rw [hf']
  exact congrArg some (Prod.mk.inj hview).1

theorem nameOf (hk : ListKept h s s') (hc : s.nameOf a = some c) : s'.nameOf a = some c := by
  obtain ⟨f, b, hf, hb, rfl⟩ := nameOf_eq_some.1 hc
  obtain ⟨f', hf', hview⟩ := hk.lookup hf
  exact nameOf_eq_some.2 ⟨f', b, hf', (Prod.mk.inj (Prod.mk.inj hview).2).1.trans hb, rfl⟩

end ListKept

theorem ListingAt.keep (hL : ListingAt s₀ v h d cs i s) (hk : ListKept h s s') : ListingAt s₀ v h d cs i s' := by
  obtain ⟨f, x, hf, hx, hl⟩ := hL.cursor
  obtain ⟨f', hf', hview⟩ := hk.lookup hf
  refine ⟨hk.nodes v d hL.node, ⟨f', x, hf', ?_, hk.chain hl⟩, fun a ha c hc => hk.nameOf (hL.names a ha c hc)⟩
  exact (Prod.mk.inj (Prod.mk.inj hview).2).2.trans hx

theorem vopDread_end {x : FapsDmassFsX} (hv : s.devInfo v = some d) (hf : s.entries.lookup d = some f)
    (hx : searchDmassCtlData h.toInt32 f.pDmassFsX = some x) (hend : x.current = none) :
    vopDread ⟨v, h⟩ s = .ok (0, none, s) := by
  obtain ⟨n, hn, hd⟩ := devInfo_eq_some.1 hv
  refine bind_eq_ok.2 ⟨n, node_eq_ok.2 hn, ?_⟩
  rw [hd]
  refine bind_eq_ok.2 ⟨f, entry_eq_ok.2 hf, ?_⟩
  simp only [hx, hend]
  rfl

/-- The state after the cursor has moved to `q`. -/
def cursorMoved (s : VfsState) (d : Addr) (h : FilePtr) (q : Option Addr) : VfsState :=
  s.modEntry d fun f => { f with pDmassFsX := modCtlData h.toInt32 (fun x => { x with current := q }) f.pDmassFsX }

theorem vopDread_next {x : FapsDmassFsX} {g : FapsDmassFs} {b : NameBlock} (hv : s.devInfo v = some d)
    (hf : s.entries.lookup d = some f) (hx : searchDmassCtlData h.toInt32 f.pDmassFsX = some x)
    (ha : x.current = some a) (hg : s.entries.lookup a = some g) (hb : g.name = some b) :
    vopDread ⟨v, h⟩ s = .ok (1, some ⟨b.str.take 0xFF, g.stat⟩, cursorMoved s d h g.next) := by
  obtain ⟨n, hn, hd⟩ := devInfo_eq_some.1 hv
  refine bind_eq_ok.2 ⟨n, node_eq_ok.2 hn, ?_⟩
  rw [hd]
  refine bind_eq_ok.2 ⟨f, entry_eq_ok.2 hf, ?_⟩
  simp only [hx, ha]
  refine bind_eq_ok.2 ⟨g, entry_eq_ok.2 hg, ?_⟩
  rw [hb]
  rfl

/-- A child without a name is not reported: `strncpy` reads it. -/
theorem vopDread_unnamed {x : FapsDmassFsX} {g : FapsDmassFs} (hv : s.devInfo v = some d)
    (hf : s.entries.lookup d = some f) (hx : searchDmassCtlData h.toInt32 f.pDmassFsX = some x)
    (ha : x.current = some a) (hg : s.entries.lookup a = some g) (hb : g.name = none) :
    vopDread ⟨v, h⟩ s = .error .null := by
  obtain ⟨n, hn, hd⟩ := devInfo_eq_some.1 hv
  unfold vopDread
  simp only [node_eq_ok.2 hn, bind, Except.bind, hd, entry_eq_ok.2 hf, hx, ha, entry_eq_ok.2 hg, hb]

/-- The cursor is on the next child to report, or past the last. -/
theorem ListingAt.cases (hL : ListingAt s₀ v h d cs i s) : ∃ f x, s.entries.lookup d = some f ∧
    searchDmassCtlData h.toInt32 f.pDmassFsX = some x ∧
    ((cs.length ≤ i ∧ x.current = none) ∨ ∃ hi : i < cs.length, ∃ g, x.current = some cs[i] ∧
      s.entries.lookup cs[i] = some g ∧ Chain s.next? g.next (cs.drop (i + 1))) := by
  obtain ⟨f, x, hf, hx, hl⟩ := hL.cursor
  refine ⟨f, x, hf, hx, ?_⟩
  rcases Nat.lt_or_ge i cs.length with hi | hi
  · rw [List.drop_eq_getElem_cons hi] at hl
    obtain ⟨hcur, q, hq, hrest⟩ := hl
    obtain ⟨g, hg, rfl⟩ := Option.map_eq_some_iff.1 hq
    exact .inr ⟨hi, g, hcur, hg, hrest⟩
  · rw [List.drop_eq_nil_of_le hi] at hl
    exact .inl ⟨hi, hl⟩

theorem ListingAt.dread {out : Option SceIoDirent} (hL : ListingAt s₀ v h d cs i s)
    (hs : vopDread ⟨v, h⟩ s = .ok (r, out, s')) : ListingAt s₀ v h d cs (i + 1) s' := by
  obtain ⟨f, x, hf, hx, ⟨hi, hend⟩ | ⟨hi, g, ha, hg, hrest⟩⟩ := hL.cases
  · rw [vopDread_end hL.node hf hx hend] at hs
    cases hs
    refine ⟨hL.node, ⟨f, x, hf, hx, ?_⟩, hL.names⟩
    rw [List.drop_eq_nil_of_le (Nat.le_succ_of_le hi)]
    exact hend
  · cases hb : g.name with
    | none =>
      rw [vopDread_unnamed hL.node hf hx ha hg hb] at hs
      cases hs
    | some b =>
      rw [vopDread_next hL.node hf hx ha hg hb] at hs
      cases hs
      have hnext : (cursorMoved s d h g.next).next? = s.next? := by
        funext b
        exact view_modEntry (π := (·.next)) fun _ => rfl
      refine ⟨hL.node, ?_, fun a ha c hc => ?_⟩
      · refine ⟨_, { x with current := g.next }, (lookup_modEntry.trans (if_pos rfl)).trans (congrArg _ hf), ?_, ?_⟩
        · dsimp only
          rw [search_modCtlData (by intro; rfl), hx]
          rfl
        · rw [hnext]
          exact hrest
      · rw [← hL.names a ha c hc]
        exact nameOf_of_view (view_modEntry fun _ => rfl)

/-- What the next `vop_dread` by the handle answers. -/
theorem ListingAt.answers (hL : ListingAt s₀ v h d cs i s) :
    (∀ hi : i < cs.length, ∀ c, s₀.nameOf cs[i] = some c →
      ∃ stat t, vopDread ⟨v, h⟩ s = .ok (1, some ⟨c.take 0xFF, stat⟩, t)) ∧
    (cs.length ≤ i → vopDread ⟨v, h⟩ s = .ok (0, none, s)) := by
  obtain ⟨f, x, hf, hx, hcase⟩ := hL.cases
  refine ⟨fun hi c hc => ?_, fun hi => ?_⟩
  · rcases hcase with ⟨hi', -⟩ | ⟨_, g, ha, hg, -⟩
    · omega
    obtain ⟨g', b, hg', hb, rfl⟩ := nameOf_eq_some.1 (hL.names _ (List.getElem_mem hi) c hc)
    obtain rfl := Option.some.inj (hg.symm.trans hg')
    exact ⟨_, _, vopDread_next hL.node hf hx ha hg hb⟩
  · rcases hcase with ⟨-, hend⟩ | ⟨hi', -⟩
    · exact vopDread_end hL.node hf hx hend
    · omega

theorem listingAt_dopen (hd : s₀.devInfo v = some d) (hK : s₀.Kids (some d) cs)
    (hs : vopDopen k ⟨v, h⟩ s₀ = .ok (0, s)) : ListingAt s₀ v h d cs 0 s := by
  rcases vopDopen_ok hs with ⟨h0, -⟩ | ⟨-, n, e, f, a, hn, he, hf, -, rfl⟩
  · exact absurd h0 (lt_irrefl _)
  obtain rfl := Option.some.inj (hd.symm.trans (devInfo_eq_some.2 ⟨n, hn, he⟩))
  refine ⟨hd,
    ⟨_, ⟨a, h.toInt32, f.nextDir⟩, (lookup_modEntry.trans (if_pos rfl)).trans (congrArg _ hf), if_pos rfl, ?_⟩,
    fun b _ c hc => ?_⟩
  · unfold Kids at hK
    rw [head_some, hf] at hK
    refine hK.congr fun b _ => ?_
    exact view_modEntry (π := (·.next)) fun _ => rfl
  · rw [← hc]
    exact nameOf_of_view (view_modEntry fun _ => rfl)

/-- The calls of an interleaving: `vop_dread`s by `h`, and others. -/
def listCall (v : NodePtr) (h : FilePtr) (call : VopCall) : Prop := call = .dread ⟨v, h⟩ ∨ otherCall h call

/-- The weight of a call: how many of the `vop_dread`s by `h` it is. -/
def dreads (h : FilePtr) : VopCall → Nat
  | .dread argp => if argp.pVfsFileObject = h then 1 else 0
  | _ => 0

theorem listingAt_step {call : VopCall} (hL : ListingAt s₀ v h d cs i s) (hc : listCall v h call)
    (hs : VopStep s call r s') : ListingAt s₀ v h d cs (i + dreads h call) s' := by
  rcases hc with rfl | hc
  · obtain ⟨out, hs⟩ := dropOut_eq_ok.1 hs
    have hone : dreads h (.dread ⟨v, h⟩) = 1 := if_pos rfl
    rw [hone]
    exact hL.dread hs
  · have hnone : dreads h call = 0 := by
      cases call with
      | dread argp => exact if_neg hc
      | _ => rfl
    rw [hnone]
    exact hL.keep (listKept_step hc hs)

/-- The handle reports the children that the directory had at the open, in their order, and then no more. -/
theorem listing_run {ls : List (VopCall × Int)} (hd : s₀.devInfo v = some d) (hK : s₀.Kids (some d) cs)
    (hs : vopDopen k ⟨v, h⟩ s₀ = .ok (0, s)) (hrun : VopRun (fun call _ _ => listCall v h call) s ls s')
    (hi : (ls.map fun l => dreads h l.1).sum = i) :
    (∀ hlt : i < cs.length, ∀ c, s₀.nameOf cs[i] = some c →
      ∃ stat t, vopDread ⟨v, h⟩ s' = .ok (1, some ⟨c.take 0xFF, stat⟩, t)) ∧
    (cs.length ≤ i → vopDread ⟨v, h⟩ s' = .ok (0, none, s')) := by
  have hL : ListingAt s₀ v h d cs (0 + (ls.map fun l => dreads h l.1).sum) s' :=
    Run.sum_invariant (I := ListingAt s₀ v h d cs) (fun i t l t' hL hl => listingAt_step hL hl.1 hl.2) hrun
      (listingAt_dopen hd hK hs)
  rw [Nat.zero_add, hi] at hL
  exact hL.answers

/-- The root directory with the children `b` and `a`. -/
def twoKids : VfsState := lastState [.create idle ⟨0, inRoot chA⟩, .create idle ⟨0, inRoot chB⟩] mounted

/-- One `vop_dread` by the handle 7, among a creation and a listing by the handle 8. -/
def listAndMake : List VopCall :=
  [.dread ⟨0, 7⟩, .mkdir idle ⟨0, ⟨[chA, chB], some (slash :: mdName ++ [slash, chA, chB])⟩⟩, .dopen idle ⟨0, 8⟩,
    .dread ⟨0, 8⟩, .dclose ⟨0, 8⟩]

theorem listing_run_twoKids : ∃ stat t, vopDread ⟨0, 7⟩ (lastState listAndMake (lastState [.dopen idle ⟨0, 7⟩] twoKids)) =
    .ok (1, some ⟨[chA], stat⟩, t) := by
  have hK : twoKids.Kids (some 1) [7, 4] :=
    ⟨by decide +kernel, some 4, by decide +kernel, by decide +kernel, none, by decide +kernel, rfl⟩
  have hopen : VopStep twoKids (.dopen idle ⟨0, 7⟩) 0 (lastState [.dopen idle ⟨0, 7⟩] twoKids) :=
    lastState_step (by decide +kernel)
  have hok : ∀ c ∈ listAndMake, listCall 0 7 c := by
    simp [listAndMake, listCall, otherCall]
  obtain ⟨ls, hls, hrun⟩ := lastState_calls (s := lastState [.dopen idle ⟨0, 7⟩] twoKids) (fun c hc _ _ => hok c hc)
    (by decide +kernel)
  have hsum : (ls.map fun l => dreads 7 l.1).sum = 1 := by
    have hmap : (ls.map (·.1)).map (dreads 7) = ls.map fun l => dreads 7 l.1 := List.map_map
    rw [← hmap, hls]
    decide
  exact (listing_run (by decide +kernel) hK hopen hrun hsum).1 (by decide) [chA] (by decide +kernel)

end VitaUtility.Dmass
